import TemplateTidy.Decimal.Limit
import TemplateTidy.Html.EndTag
import TemplateTidy.Html.StartTag
import TemplateTidy.Text.Quoted

/-!
# The tags of a document

Where elements begin and end in a document, in the order of the document.
Comments, declarations and references are passed over; the content of scripts
and style sheets is passed over up to the element's end tag.

A document is walked over as if it arrived in two parts. At first the end of
the text is not known to be the end of the document, and the walk stops at the
first construct that looks unfinished. Then the end is known, the walk goes on
from there, and what is unfinished counts as text. A numeric reference without
digits stops either part of the walk, so that tags after a second one go
unnoticed.
-/

namespace TemplateTidy.Html

open Recogniser

/-- A tag at an offset of the document. -/
structure TagEvent where
  closes : Bool
  name : Text
  offset : Nat
  deriving Repr, DecidableEq

/-- Why a document cannot be walked over. -/
inductive Fault where
  /-- A marked section has no keyword; the text from its start on is shown. -/
  | missingKeyword (context : Text)
  /-- A marked section has a keyword without a meaning. -/
  | unknownKeyword (keyword : Text)
  /-- An attribute's value holds a numeric reference with so many digits. -/
  | longReference (digits : Nat)
  deriving Repr, DecidableEq

/-- The wording of a fault. -/
def Fault.message : Fault → Text
  | missingKeyword context => "expected name token at ".toList ++ Text.quoted context
  | unknownKeyword keyword =>
    "unknown status keyword ".toList ++ Text.quoted keyword ++ " in marked section".toList
  | longReference digits => Decimal.limitMessage digits

/-- What stands at one place of a document. -/
inductive Construct where
  /-- So many characters, with the tags among them, after which an element's
  content is passed over if a name is given. -/
  | passed (tags : List (Bool × Text)) (raw : Option Text) (length : Nat)
  /-- Something that looks unfinished. -/
  | unfinished
  /-- The walk stops after so many characters. -/
  | stop (length : Nat)

/-- Something without tags. -/
def Construct.plain (length : Nat) : Construct :=
  .passed [] none length

/-- Something without tags that reaches up to a terminator, if it is there. -/
def Construct.upTo (head : Nat) (rest : Option Nat) : Construct :=
  match rest with
  | some n => .plain (head + n)
  | none => .unfinished

/-- Number of characters up to and including the first thing recognised. -/
def throughFirst? (r : Recogniser) (s : Text) : Option Nat :=
  (Text.search? r s).map fun (i, n) => i + n

/-! ## References -/

/-- A hexadecimal digit. -/
def isHexDigit (c : Char) : Bool :=
  c.isDigit || ('a' ≤ c.toLower && c.toLower ≤ 'f')

/-- Length of what ends a reference, if that belongs to it. -/
def semicolon : Text → Nat
  | ';' :: _ => 1
  | _ => 0

/-- Length of a numeric reference from its `&#` on. -/
def numericReference? (s : Text) : Option Nat :=
  let digits := match s.drop 2 with
    | 'x' :: rest | 'X' :: rest => (many isHexDigit rest).map (1 + ·)
    | rest => many Char.isDigit rest
  match digits with
  | none => none
  | some n =>
    match s.drop (2 + n) with
    | [] => none
    -- a letter that could be a digit leaves open where the number ends
    | c :: cs => if isHexDigit c then none else some (2 + n + semicolon (c :: cs))

/-- The number of digits of the first numeric reference that is too long to be
read. Hexadecimal ones may be of any length. -/
def longReference? : Text → Option Nat
  | [] => none
  | '&' :: '#' :: rest =>
    let digits := (rest.takeWhile Char.isDigit).length
    if Decimal.digitLimit < digits then some digits else longReference? rest
  | _ :: rest => longReference? rest

/-- Continues the name of a reference. -/
def inReferenceName (c : Char) : Bool :=
  c.isAlphanum || c == '-' || c == '.'

/-- Length of a named reference after its `&` and first letter. At the end of
the text the name goes up to the last dash or point in it. -/
def referenceRest? (s : Text) : Option Nat :=
  let name := s.takeWhile inReferenceName
  match s.drop name.length with
  | [] =>
    match name.reverse.dropWhile Char.isAlphanum with
    | [] => none
    | _ :: kept => some kept.length
  | rest => some (name.length + semicolon rest)

/-- What begins with an ampersand. -/
def reference (s : Text) : Construct :=
  match s with
  | '&' :: '#' :: _ =>
    match numericReference? s with
    | some n => .plain n
    -- with a semicolon anywhere behind it the mark is passed before the walk stops
    | none => .stop (if s.contains ';' then 2 else 0)
  | '&' :: c :: rest =>
    if c.isAlpha then
      match referenceRest? rest with
      | some n => .plain (2 + n)
      | none => .stop 0
    else .plain 1
  | _ => .stop 0

/-! ## Tags and declarations -/

/-- The elements whose content is passed over. -/
def rawElements : List Text :=
  ["script".toList, "style".toList]

/-- What a start tag amounts to. -/
def Opening.construct (tag : Opening) : Construct :=
  let name := Text.lower tag.name
  match tag.extent with
  | .complete n true => .passed [(false, name), (true, name)] none n
  | .complete n false =>
    .passed [(false, name)] (if rawElements.contains name then some name else none) n
  | .text n => .plain n
  | .unfinished => .unfinished

/-- A start tag with the given first letter. The values of its attributes are
read unless it is unfinished. -/
def startTag (letter : Char) (rest : Text) : Except Fault Construct :=
  let tag := opening letter rest
  if tag.extent = .unfinished then .ok .unfinished
  else
    match tag.attributes.findSome? (longReference? ·.value) with
    | some digits => .error (.longReference digits)
    | none => .ok tag.construct

/-- The name in a well-formed end tag: between white space, up to the closing
bracket. -/
def endTagName? (s : Text) : Option Text :=
  let inner := Text.trimLeft (s.drop 2)
  match inner with
  | c :: cs =>
    if c.isAlpha then
      let rest := cs.takeWhile fun c => c.isAlphanum || "-.:_".toList.contains c
      if (Text.trimLeft (cs.drop rest.length)).head? = some '>' then some (c :: rest) else none
    else none
  | [] => none

/-- The name of an end tag that is not well-formed, directly after its `</`. -/
def looseEndTagName? (s : Text) : Option Text :=
  match s.drop 2 with
  | c :: cs => if c.isAlpha then some (tagName c cs) else none
  | [] => none

/-- An end tag. -/
def endTag (s : Text) : Construct :=
  match Text.through? ['>'] s with
  | none => .unfinished
  | some n =>
    match (endTagName? s).or (looseEndTagName? s) with
    | some name => .passed [(true, Text.lower name)] none n
    | none => .plain n

/-- An end tag in the content of the element `raw`, which only a well-formed
end tag of that element leaves. -/
def rawEndTag (raw s : Text) : Construct :=
  match Text.through? ['>'] s with
  | none => .unfinished
  | some n =>
    match (endTagName? s).map Text.lower with
    | some name => if name = raw then .passed [(true, name)] none n else .passed [] (some raw) n
    | none => .passed [] (some raw) n

/-- A closing bracket, white space, and what follows. -/
def bracketThen (r : Recogniser) : Recogniser :=
  andThen (Text.literal [']']) (andThen (gap 0) r)

/-- The end of a marked section, by its keyword. -/
def sectionEnd? (keyword : Text) : Option Recogniser :=
  if ["temp", "cdata", "ignore", "include", "rcdata"].contains (String.ofList keyword) then
    some (bracketThen (bracketThen (Text.literal ['>'])))
  else if ["if", "else", "endif"].contains (String.ofList keyword) then
    some (bracketThen (Text.literal ['>']))
  else none

/-- The keyword of a marked section with the white space after it. -/
def sectionKeyword : Recogniser :=
  andThen (run Char.isAlpha fun c => c.isAlphanum || "-_.".toList.contains c) (gap 0)

/-- A marked section. -/
def markedSection (s : Text) : Except Fault Construct :=
  let inner := s.drop 3
  if inner.isEmpty then .ok .unfinished
  else
    match sectionKeyword inner with
    | none => .error (.missingKeyword (s.take 20))
    | some n =>
      -- the keyword may go on in the rest of the document
      if n = inner.length then .ok .unfinished
      else
        let written := inner.take n
        match sectionEnd? (Text.lower (Text.trim written)) with
        | none => .error (.unknownKeyword written)
        | some close => .ok (.upTo 3 (throughFirst? close inner))

/-- The end of a comment. -/
def commentEnd : Recogniser :=
  andThen (Text.literal "--".toList) (andThen (gap 0) (Text.literal ['>']))

/-- What begins with a `<`. -/
def bracketed (s : Text) : Except Fault Construct :=
  match s with
  | '<' :: '/' :: _ => .ok (endTag s)
  | '<' :: '!' :: '-' :: '-' :: rest => .ok (.upTo 4 (throughFirst? commentEnd rest))
  | '<' :: '!' :: '[' :: _ => markedSection s
  | '<' :: '!' :: rest => .ok (.upTo 2 (Text.through? ['>'] rest))
  | '<' :: '?' :: rest => .ok (.upTo 2 (Text.through? ['>'] rest))
  | '<' :: c :: rest => if c.isAlpha then startTag c rest else .ok (.plain 1)
  | _ => .ok (.stop 0)

/-! ## The walk -/

/-- The offset of the next place of interest: inside a raw element its end tag,
elsewhere a reference or anything with a bracket. -/
def nextPlace? (raw : Option Text) (s : Text) : Option Nat :=
  match raw with
  | some name => (Text.search? (endTagOf name) s).map (·.1)
  | none => s.findIdx? fun c => c == '<' || c == '&'

/-- What stands at a place of interest. -/
def constructAt (raw : Option Text) (s : Text) : Except Fault Construct :=
  match raw with
  | some name => .ok (rawEndTag name s)
  | none => if s.head? = some '&' then .ok (reference s) else bracketed s

/-- How much of an unfinished construct counts as text once the end of the
document is known. -/
def giveUp (s : Text) : Nat :=
  match Text.through? ['>'] (s.drop 1) with
  | some n => 1 + n
  | none =>
    match Text.find? ['<'] (s.drop 1) with
    | some n => 1 + n
    | none => 1

/-- The tags of a construct at an offset. -/
def TagEvent.place (offset : Nat) (tags : List (Bool × Text)) : List TagEvent :=
  tags.map fun (closes, name) => ⟨closes, name, offset⟩

/-- The tags of the rest `s` of a document, which begins at `offset`. -/
def walk (atEnd : Bool) (raw : Option Text) (offset : Nat) (s : Text) :
    Except Fault (List TagEvent) :=
  match nextPlace? raw s with
  | none => .ok []
  | some i =>
    match _rest : s.drop i with
    | [] => .ok []
    | c :: cs => do
      let here := offset + i
      match ← constructAt raw (c :: cs) with
      | .passed tags next n =>
        let later ← walk atEnd next (here + 1 + (n - 1)) (cs.drop (n - 1))
        return TagEvent.place here tags ++ later
      | .unfinished =>
        if atEnd then
          -- nothing more will come: up to the next bracket this is text
          let n := giveUp (c :: cs)
          walk atEnd raw (here + 1 + (n - 1)) (cs.drop (n - 1))
        else walk true raw here (c :: cs)
      | .stop n =>
        if atEnd then .ok [] else walk true raw (here + n) ((c :: cs).drop n)
-- the first part of the walk may hand over to the second without taking a character
termination_by 2 * s.length + (if atEnd then 0 else 1)
decreasing_by
  all_goals
    have length := congrArg List.length _rest
    simp only [List.length_drop, List.length_cons] at length ⊢
    split <;> simp_all <;> omega

/-- The tags of a document. -/
def tagEvents (s : Text) : Except Fault (List TagEvent) :=
  walk false none 0 s

end TemplateTidy.Html
