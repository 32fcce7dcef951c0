import TemplateTidy.Text.Basic

/-!
# Blank characters

Which characters count as white space, and the operations that look for them.
The class is the one of Unicode's bidirectional types WS, B and S together
with the space separators: line and page breaks, the information separators,
and every kind of space except the zero-width ones.
-/

namespace TemplateTidy

/-- White space. Zero-width spaces and the byte order mark do not count. -/
def isBlank (c : Char) : Bool :=
  let n := c.toNat
  if n < 0x80 then (0x09 ≤ n && n ≤ 0x0D) || (0x1C ≤ n && n ≤ 0x20)
  else
    n == 0x85 || n == 0xA0 || n == 0x1680 || (0x2000 ≤ n && n ≤ 0x200A) || n == 0x2028
      || n == 0x2029 || n == 0x202F || n == 0x205F || n == 0x3000

namespace Text

/-- Every character is white space. -/
def allBlank (s : Text) : Bool :=
  s.all isBlank

/-- Without leading white space. -/
def trimLeft (s : Text) : Text :=
  s.dropWhile isBlank

/-- Without trailing white space. -/
def trimRight (s : Text) : Text :=
  (trimLeft s.reverse).reverse

/-- Without white space at either end. -/
def trim (s : Text) : Text :=
  trimRight (trimLeft s)

/-- How many blank characters the text begins with. -/
def blanks (s : Text) : Nat :=
  leading isBlank s

end Text

/-- A maximal run of white space or of other characters. -/
inductive Chunk where
  | gap (blank : Text)
  | word (letters : Text)
  deriving Repr, DecidableEq

namespace Chunk

/-- The characters of a chunk. -/
def text : Chunk → Text
  | gap s => s
  | word s => s

/-- Puts one character in front of a sequence of chunks. -/
def cons (c : Char) : List Chunk → List Chunk
  | gap s :: rest => if isBlank c then gap (c :: s) :: rest else word [c] :: gap s :: rest
  | word s :: rest => if isBlank c then gap [c] :: word s :: rest else word (c :: s) :: rest
  | [] => if isBlank c then [gap [c]] else [word [c]]

/-- Cuts a text into its gaps and words. -/
def ofText (s : Text) : List Chunk :=
  s.foldr cons []

end Chunk

end TemplateTidy
