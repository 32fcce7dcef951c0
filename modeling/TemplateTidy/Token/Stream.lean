import TemplateTidy.Php.Lexer
import TemplateTidy.Token.Basic

/-!
# The token stream of a template

Lexemes become tokens in three steps: each lexeme is given the kind it has at
its place, neighbours of one kind are joined, and offsets are counted.

A `<?` that is neither `<?php` nor `<?=` opens a segment only where short tags
are allowed. Elsewhere it and everything up to the next `?>` is markup. Which
of the two it is can be told only from the lexeme after it.
-/

namespace TemplateTidy

/-- A part of a template with its kind. -/
structure Piece where
  kind : Token.Kind
  text : Text
  deriving Repr, DecidableEq

/-- Where the reader of lexemes stands. -/
inductive Reading where
  | outside
  /-- After a bare opener that is still to be judged. -/
  | pending (opener : Text)
  /-- In a run that looks like a segment and is markup. -/
  | literal
  | inside
  deriving Repr, DecidableEq

namespace Lexeme

/-- The lexeme closes a segment. -/
def isClose (x : Lexeme) : Bool :=
  x.kind == .delimiter && x.text == "?>".toList

/-- The lexeme opens a segment, or might. -/
def isOpen (x : Lexeme) : Bool :=
  x.kind == .delimiter && "<?".toList.isPrefixOf x.text

end Lexeme

namespace Reading

/-- A lexeme outside of segments. -/
def stepOutside (x : Lexeme) : List Piece × Reading :=
  if x.isOpen then
    if x.text = "<?".toList then ([], .pending x.text) else ([⟨.openTag, x.text⟩], .inside)
  else ([⟨.inlineHtml, x.text⟩], .outside)

/-- A lexeme in a run of markup that looks like a segment. -/
def stepLiteral (x : Lexeme) : List Piece × Reading :=
  ([⟨.inlineHtml, x.text⟩], if x.isClose then .outside else .literal)

/-- The kind of a lexeme inside a segment that it does not close. -/
def kindInside : Lexeme.Class → Token.Kind
  | .error => .other
  -- an opening tag inside a segment opens nothing
  | .comment | .delimiter => .comment
  | .plain => .code

/-- A lexeme inside a segment. -/
def stepInside (x : Lexeme) : List Piece × Reading :=
  if x.isClose then ([⟨.closeTag, x.text⟩], .outside)
  else ([⟨kindInside x.kind, x.text⟩], .inside)

/-- Puts a piece in front of what a step yields. -/
def after (p : Piece) (step : List Piece × Reading) : List Piece × Reading :=
  (p :: step.1, step.2)

/-- A lexeme after a bare opener. -/
def stepPending (shortTags : Bool) (opener : Text) (x : Lexeme) : List Piece × Reading :=
  match x.text with
  | ['='] => ([⟨.openTagWithEcho, opener ++ ['=']⟩], .inside)
  -- the sign may begin a longer operator, the rest of which is code
  | '=' :: more => after ⟨.openTagWithEcho, opener ++ ['=']⟩ (stepInside ⟨x.kind, more⟩)
  | _ =>
    if shortTags then after ⟨.openTag, opener⟩ (stepInside x)
    else after ⟨.inlineHtml, opener⟩ (stepLiteral x)

/-- The pieces that a lexeme yields, and where the reader stands after it. -/
def step (shortTags : Bool) : Reading → Lexeme → List Piece × Reading
  | .outside, x => stepOutside x
  | .pending opener, x => stepPending shortTags opener x
  | .literal, x => stepLiteral x
  | .inside, x => stepInside x

/-- The pieces at the end of the text. -/
def atEnd (shortTags : Bool) : Reading → List Piece
  | .pending opener => [⟨if shortTags then .openTag else .inlineHtml, opener⟩]
  | _ => []

/-- The pieces of a sequence of lexemes, the empty ones among them left out. -/
def pieces (shortTags : Bool) (r : Reading) : List Lexeme → List Piece
  | [] => r.atEnd shortTags
  | x :: xs =>
    if x.text.isEmpty then pieces shortTags r xs
    else
      let (ps, r) := r.step shortTags x
      ps ++ pieces shortTags r xs

end Reading

namespace Piece

/-- Length of the line break a text begins with. -/
def leadingBreak (s : Text) : Nat :=
  match s with
  | '\r' :: '\n' :: _ => 2
  | '\n' :: _ => 1
  | _ => 0

/-- A closing tag in front of markup takes over the line break there. -/
def absorb (close markup : Text) (rest : List Piece) : List Piece :=
  let n := leadingBreak markup
  let remaining := markup.drop n
  ⟨.closeTag, close ++ markup.take n⟩ ::
    (if remaining.isEmpty then rest else ⟨.inlineHtml, remaining⟩ :: rest)

/-- Puts a piece in front of pieces that are already joined. -/
def cons (p : Piece) : List Piece → List Piece
  | [] => [p]
  | q :: rest =>
    -- what follows is joined already, so that `q` holds all of its kind
    if p.kind = q.kind ∧ p.kind.isMergeable then ⟨p.kind, p.text ++ q.text⟩ :: rest
    else if p.kind = .closeTag ∧ q.kind = .inlineHtml then absorb p.text q.text rest
    else p :: q :: rest

/-- Joins neighbours of one kind, and line breaks to the closing tag before
them. -/
def join (ps : List Piece) : List Piece :=
  ps.foldr cons []

/-- Counts the offsets. -/
def locate : Nat → List Piece → List Token
  | _, [] => []
  | start, p :: ps => ⟨p.kind, p.text, start⟩ :: locate (start + p.text.length) ps

end Piece

/-- The tokens of a template. -/
def tokenize (shortTags : Bool) (s : Text) : List Token :=
  Piece.locate 0 (Piece.join (Reading.pieces shortTags .outside (Php.lexemes s)))

end TemplateTidy
