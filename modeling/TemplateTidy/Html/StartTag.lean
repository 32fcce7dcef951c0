import TemplateTidy.Text.Blank

/-!
# Start tags

How far a start tag reaches when everything that browsers forgive is forgiven:
stray slashes, repeated equals signs, attributes without white space between
them. Quoted attribute values may hold anything but their quote.
-/

namespace TemplateTidy.Html

/-- Ends the name of a tag. -/
def endsTagName (c : Char) : Bool :=
  "\t\n\r\x0c />\x00".toList.contains c

/-- A quotation mark. -/
def isQuote (c : Char) : Bool :=
  c == '"' || c == '\''

/-- What a start tag turns out to be. -/
inductive Extent where
  /-- A tag of the given length. -/
  | complete (length : Nat) (selfClosing : Bool)
  /-- No tag: so many characters are text. -/
  | text (length : Nat)
  /-- The end of the tag is missing. -/
  | unfinished
  deriving Repr, DecidableEq

/-- Number of characters of white space and slashes, up to the slash of a
closing `/>`. -/
def separators : Text → Nat
  | [] => 0
  | c :: cs =>
    if isBlank c || (c == '/' && cs.head? != some '>') then 1 + separators cs else 0

/-- Continues an attribute name. -/
def inAttributeName (c : Char) : Bool :=
  !(isBlank c || c == '/' || c == '=' || c == '>')

/-- Continues an attribute value without quotes. -/
def inBareValue (c : Char) : Bool :=
  !(isBlank c || c == '>')

/-- Length of an attribute's value with the equals signs before it, or zero
where there is none. A quote that is never closed begins no value: after white
space the value is empty, and directly after several equals signs it is a bare
one from the last of them on. -/
def valueLength (s : Text) : Nat :=
  let lead := Text.blanks s
  let signs := Text.leading (· == '=') (s.drop lead)
  if signs = 0 then 0
  else
    let inner := Text.blanks (s.drop (lead + signs))
    let head := lead + signs + inner
    let value := s.drop head
    match value with
    | q :: body =>
      if isQuote q then
        match Text.through? [q] body with
        | some n => head + 1 + n
        | none =>
          -- the quote is not closed: white space, or else an equals sign, is given back
          if 0 < inner then head - 1
          else if 1 < signs then head + Text.leading inBareValue value
          else 0
      else head + Text.leading inBareValue value
    | [] => head

/-- An attribute of a start tag. -/
structure Attribute where
  /-- The value with the equals signs before it; nothing if there is none. -/
  value : Text
  /-- How many characters follow the first one, the separators after the
  attribute included. -/
  rest : Nat
  deriving Repr, DecidableEq

/-- The attribute whose first character stands between `prev` and `cs`. An
attribute begins only after a quote or a separator. -/
def attribute? (prev c : Char) (cs : Text) : Option Attribute :=
  if (isQuote prev || isBlank prev || prev == '/') && !(isBlank c || c == '/' || c == '>') then
    let name := Text.leading inAttributeName cs
    let named := cs.drop name
    let value := valueLength named
    some { value := named.take value, rest := name + value + separators (named.drop value) }
  else none

/-- The attributes after the character `prev`. -/
def attributes (prev : Char) (s : Text) : List Attribute :=
  match s with
  | [] => []
  | c :: cs =>
    match attribute? prev c cs with
    | none => []
    | some a => a :: attributes ((c :: cs)[a.rest]?.getD c) (cs.drop a.rest)
termination_by s.length
decreasing_by
  simp only [List.length_drop, List.length_cons]
  omega

/-- Length of several attributes in a row. -/
def attributesLength : List Attribute → Nat
  | [] => 0
  | a :: as => 1 + a.rest + attributesLength as

/-- The name of the tag with the given first letter. -/
def tagName (letter : Char) (s : Text) : Text :=
  letter :: s.takeWhile (!endsTagName ·)

/-- A start tag as it stands in a document. -/
structure Opening where
  name : Text
  attributes : List Attribute
  extent : Extent
  deriving Repr, DecidableEq

/-- The start tag whose `<` and first letter stand before `s`. -/
def opening (letter : Char) (s : Text) : Opening :=
  let name := tagName letter s
  let separated := (s.drop (name.length - 1)).takeWhile fun c => isBlank c || c == '/'
  let head := name.length - 1 + separated.length
  let prev := ((name ++ separated).getLast?).getD letter
  let attrs := attributes prev (s.drop head)
  let inner := attributesLength attrs
  let length := 2 + head + inner
  { name
    attributes := attrs
    extent :=
      match s.drop (head + inner) with
      -- without attributes the slash before the bracket has been passed as a separator
      | '>' :: _ => .complete (length + 1) (attrs.isEmpty && separated.getLast? == some '/')
      | '/' :: '>' :: _ => .complete (length + 2) true
      | [] => .unfinished
      -- what might still go on as a tag waits for more of the document
      | c :: _ => if c.isAlpha || c == '=' || c == '/' then .unfinished else .text length }

end TemplateTidy.Html
