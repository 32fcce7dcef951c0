import TemplateTidy.Text.Blank

/-!
# Inside a tag

Two readers go over the characters of a tag: one looks for the bracket that
closes it, the other divides it into attributes. Both leave alone what stands
between quotes, and both pass over comments and templating tags as *atoms*, in
which brackets, quotes and white space mean nothing.
-/

namespace TemplateTidy.Tag

/-- Where a reader stands in a tag. -/
inductive Spot where
  | plain
  | quoted (quote : Char)
  /-- In an atom. After so many characters its end is looked for. -/
  | atom (skip : Nat) (closer : Text)
  /-- At the end of an atom, of which so many characters remain. -/
  | leaving (remaining : Nat)
  deriving Repr, DecidableEq

namespace Spot

/-- Where the reader stands after the first character of a text. `lead` is the
number of characters from the start of a comment to where its end is looked
for. -/
def next (templates : Bool) (lead : Nat) (spot : Spot) (c : Char) (cs : Text) : Spot :=
  match spot with
  | plain =>
    if c == '"' || c == '\'' then quoted c
    -- `c` itself is the first of the characters to be skipped
    else if "<!--".toList.isPrefixOf (c :: cs) then atom (lead - 1) "-->".toList
    else if templates && "<?".toList.isPrefixOf (c :: cs) then atom 1 "?>".toList
    else plain
  | quoted q => if c == q then plain else quoted q
  | atom (skip + 1) closer => atom skip closer
  | atom 0 closer =>
    if closer.isPrefixOf (c :: cs) then leaving (closer.length - 1) else atom 0 closer
  | leaving (n + 2) => leaving (n + 1)
  -- the last character of the atom still belongs to it, what follows does not
  | leaving _ => plain

end Spot

/-! ## The end of a tag -/

/-- Number of characters up to and including the bracket that closes a tag, or
all of them if there is none. -/
def length (templates : Bool) : Spot → Text → Nat
  | _, [] => 0
  | spot, c :: cs =>
    -- the end of a comment is looked for behind the whole of its opener
    if spot = .plain ∧ c = '>' then 1 else 1 + length templates (spot.next templates 4 c cs) cs

/-! ## Attributes -/

/-- The words of a text with the one at its front first. -/
structure Words where
  front : Text
  others : List Text

namespace Words

/-- No words. -/
def none : Words :=
  ⟨[], []⟩

/-- All words that are not empty. -/
def toList (w : Words) : List Text :=
  if w.front.isEmpty then w.others else w.front :: w.others

/-- Puts a character in front of the first word. -/
def cons (c : Char) (w : Words) : Words :=
  ⟨c :: w.front, w.others⟩

/-- Puts white space in front of the first word. -/
def divide (w : Words) : Words :=
  ⟨[], w.toList⟩

end Words

/-- Divides a text at white space outside of quotes and atoms. -/
def words (templates : Bool) : Spot → Text → Words
  | _, [] => .none
  | spot, c :: cs =>
    -- here the dashes of the opener may belong to the end of the comment too
    if spot = .plain ∧ isBlank c then (words templates .plain cs).divide
    else (words templates (spot.next templates 2 c cs) cs).cons c

/-- Joins words around equals signs, given the one before them. -/
def rejoinAfter (word : Text) : List Text → List Text
  | [] => [word]
  | w :: ws =>
    if ['='].isPrefixOf w || Text.endsWith ['='] word then rejoinAfter (word ++ w) ws
    else word :: rejoinAfter w ws

/-- Joins the words of attributes written with white space around the equals
sign. -/
def rejoin : List Text → List Text
  | [] => []
  | w :: ws => rejoinAfter w ws

/-- The attributes in the part of a tag after its name. -/
def attributes (templates : Bool) (s : Text) : List Text :=
  rejoin (words templates .plain s).toList

/-! ## The name of a tag -/

/-- Continues the name of a tag. -/
def inName (c : Char) : Bool :=
  !(isBlank c || c == '/' || c == '>')

/-- The name of a start tag as it is written. -/
def writtenName (raw : Text) : Text :=
  (raw.drop 1).takeWhile inName

end TemplateTidy.Tag
