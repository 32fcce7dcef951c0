import TemplateTidy.Context.Element
import TemplateTidy.Disguise
import TemplateTidy.Marker.Choice
import TemplateTidy.Trace

/-!
# Beautifying templates

The markup of a template is laid out anew while its code segments stay as they
are: the segments are disguised as comments, the result is formatted as plain
markup, and the disguise is taken off again.

A template that consists of one code segment has no markup to lay out. It loses
the white space before the segment and is otherwise left alone.
-/

namespace TemplateTidy

/-- Lays out disguised markup. -/
abbrev Formatter := MarkupOptions → Text → Except Failure Text

/-- The formatter of this library. -/
def Formatter.markup : Formatter := fun o s =>
  (formatMarkup o s).mapError .indentation

/-! ## Templates of one code segment -/

/-- Recognises an opening tag for whole templates: `<?=`, or `<?php` as a word
of its own. -/
def openTag : Recogniser :=
  Recogniser.firstOf
    [Text.literal "<?=".toList,
     Recogniser.before (Text.literalIgnoringCase "<?php".toList) Text.endsWord]

/-- What may follow the closing tag of a template that is one segment: at most
one character, or one line break. -/
def isShortTail (rest : Text) : Bool :=
  decide (rest.length ≤ 1) || rest == "\r\n".toList

/-- The only closing tag of the text, if there is one, comes at its end. -/
def closesAtEnd (s : Text) : Bool :=
  match Text.through? "?>".toList s with
  | none => true
  | some n => !Text.occursIn "?>".toList (s.drop n) && isShortTail (s.drop n)

/-- The template is one code segment with nothing but white space before it.
Closing tags are looked for anywhere in the text, be it in a string. -/
def isWholeCodeBlock (s : Text) : Bool :=
  match Text.search? openTag s with
  | none => false
  | some (i, n) =>
    -- no second opening tag, be it in a string
    (Text.search? openTag (s.drop (i + n))).isNone && Text.allBlank (s.take i) && closesAtEnd s

/-! ## Templates with markup -/

/-- A template made ready for the formatter. -/
structure Prepared where
  codec : Codec
  tokens : List Token
  ranges : List ContextRange
  disguised : Text

/-- Makes a template ready for the formatter under a given codec. -/
def prepare (codec : Codec) (shortTags : Bool) (s : Text) : Except Html.Fault Prepared := do
  let tokens := tokenize shortTags s
  let ranges ← ContextRange.find ContextRange.codeElements tokens
  return { codec, tokens, ranges, disguised := disguise codec ranges tokens }

namespace Prepared

/-- What is logged about a template that is ready for the formatter. -/
def log (p : Prepared) : List LogEntry :=
  let segments := p.tokens.countP (·.kind.isOpen)
  let length := (p.tokens.flatMap (·.text)).length
  [.debug .beautifier (Text.ofNat p.tokens.length ++ " tokens, ".toList ++
      Text.ofNat p.ranges.length ++ " script/style range(s)".toList)] ++
    (if Token.leavesOpen p.tokens then
      [.debug .disguise "input ends inside a code segment; appended a closing tag".toList]
    else []) ++
    [.debug .disguise ("disguised ".toList ++ Text.ofNat segments ++ " segment(s): ".toList ++
      Text.ofNat length ++ " chars in, ".toList ++ Text.ofNat p.disguised.length ++
      " chars out".toList)]

end Prepared

/-- What is logged about the choice of a codec. -/
def Codec.log (k : Codec) : List LogEntry :=
  if k.nonce = Codec.usual.nonce then []
  else
    [.debug .beautifier ("input contains default sentinel fragments; using nonce ".toList ++
      Text.quoted k.nonce)]

/-- Lays out the markup of a template with a given formatter. -/
def beautifyWith (format : Formatter) (draws : Draws) (draw : Nat) (o : MarkupOptions)
    (shortTags : Bool) (s : Text) : Run Text :=
  if isWholeCodeBlock s then
    { log := [.debug .beautifier "input is a single code block; skipping the markup pass".toList]
      nextDraw := draw
      result := .ok (Text.trimLeft s) }
  else
    let (codec, nextDraw) := Codec.forText draws draw s
    -- draws that have been made stay made, also where the markup cannot be read
    match prepare codec shortTags s with
    | .error fault => { log := codec.log, nextDraw, result := .error (.markup fault) }
    | .ok p =>
      { log := codec.log ++ p.log
        nextDraw
        result := (format o p.disguised).map codec.decode }

/-- Lays out the markup of a template. -/
def beautify (draws : Draws) (draw : Nat) (o : MarkupOptions) (shortTags : Bool) (s : Text) :
    Run Text :=
  beautifyWith Formatter.markup draws draw o shortTags s

end TemplateTidy
