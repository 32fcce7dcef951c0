/-!
# Texts

A text is the list of its characters, so every length, offset and column of
the project counts characters. This module holds the operations on texts that
know nothing about what the characters mean: searching, replacing, cutting.

A *recogniser* is a function `Text → Option Nat`. It looks at the front of a
text and answers how many characters of it form one occurrence of what it
recognises. Recognisers are the common currency of the scanners: whoever calls
one takes that many characters and continues with the rest, so that nothing of
the input can be lost or invented on the way.
-/

namespace TemplateTidy

/-- A text is the list of its characters. -/
abbrev Text := List Char

/-- Answers how many characters at the front of a text form an occurrence. -/
abbrev Recogniser := Text → Option Nat

namespace Text

/-! ## Deciding

What holds of every character of a text, or of one of them, is decided along the text and
not along all the characters there are. The same goes for a character that may be
missing, such as the last one. -/

section Deciding

variable {p : Char → Prop} [DecidablePred p]

instance (priority := high) decidableForallMem (s : Text) : Decidable (∀ c ∈ s, p c) :=
  List.decidableBAll p s

instance (priority := high) decidableExistsMem (s : Text) : Decidable (∃ c ∈ s, p c) :=
  List.decidableBEx p s

instance (priority := high) decidableForallSome (o : Option Char) : Decidable (∀ c ∈ o, p c) :=
  Option.decidableForallMem o

instance (priority := high) decidableExistsSome (o : Option Char) : Decidable (∃ c ∈ o, p c) :=
  Option.decidableExistsMem o

end Deciding

/-! ## Searching -/

/-- Offset of the first occurrence of `pat` in a text that begins at offset
`i`. -/
def findFrom (pat : Text) (i : Nat) : Text → Option Nat
  | [] => if pat.isEmpty then some i else none
  | c :: cs => if pat.isPrefixOf (c :: cs) then some i else findFrom pat (i + 1) cs

/-- Offset of the first occurrence of `pat`. -/
def find? (pat s : Text) : Option Nat :=
  findFrom pat 0 s

/-- Whether `pat` occurs anywhere in the text. -/
def occursIn (pat s : Text) : Bool :=
  (find? pat s).isSome

/-- Number of characters up to and including the first occurrence of `pat`. -/
def through? (pat s : Text) : Option Nat :=
  (find? pat s).map (· + pat.length)

/-- Offset and length of the first occurrence that a recogniser finds in a text
that begins at offset `i`. -/
def searchFrom (r : Recogniser) (i : Nat) : Text → Option (Nat × Nat)
  -- an empty occurrence may stand at the very end
  | [] => (r []).map (i, ·)
  | c :: cs =>
    match r (c :: cs) with
    | some n => some (i, n)
    | none => searchFrom r (i + 1) cs

/-- Offset and length of the first occurrence that a recogniser finds. -/
def search? (r : Recogniser) (s : Text) : Option (Nat × Nat) :=
  searchFrom r 0 s

/-- The text ends with `pat`. -/
def endsWith (pat s : Text) : Bool :=
  pat.reverse.isPrefixOf s.reverse

/-- How many characters at the front of the text pass a test. -/
def leading (p : Char → Bool) (s : Text) : Nat :=
  s.findIdx (!p ·)

/-- The leading characters of a class are those that are taken while they belong to it. -/
theorem leading_eq_length_takeWhile (p : Char → Bool) (s : Text) :
    leading p s = (s.takeWhile p).length := by
  induction s with
  | nil => rfl
  | cons c cs ih =>
    rw [leading] at ih ⊢
    by_cases h : p c <;> simp [List.findIdx_cons, h, ih]

/-- Behind the characters at the front that pass a test. -/
theorem drop_length_takeWhile (p : Char → Bool) (s : Text) :
    s.drop (s.takeWhile p).length = s.dropWhile p := by
  induction s with
  | nil => rfl
  | cons c cs ih => by_cases h : p c <;> simp [h, ih]

/-! ## Replacing -/

/-- Replaces every occurrence, left to right and without overlaps. The counter
is the number of characters of the last occurrence still to be dropped. -/
def substituteFrom (r : Recogniser) (new : Text) : Nat → Text → Text
  | _, [] => []
  | k + 1, _ :: cs => substituteFrom r new k cs
  | 0, c :: cs =>
    match r (c :: cs) with
    | some (n + 1) => new ++ substituteFrom r new n cs
    -- an empty occurrence is passed over, so that every step takes a character
    | _ => c :: substituteFrom r new 0 cs

/-- Replaces every non-empty occurrence that `r` finds by `new`. -/
def substitute (r : Recogniser) (new s : Text) : Text :=
  substituteFrom r new 0 s

/-- Recognises exactly `pat`. -/
def literal (pat : Text) : Recogniser := fun s =>
  if pat.isPrefixOf s then some pat.length else none

/-- Replaces every occurrence of `old`; an empty `old` occurs before every
character and at the end. -/
def replaceAll (old new s : Text) : Text :=
  if old.isEmpty then new ++ s.flatMap (· :: new)
  else substitute (literal old) new s

/-! ## Lines -/

/-- Number of line feeds. -/
def newlines (s : Text) : Nat :=
  s.count '\n'

/-- The part after the last line feed. -/
def lastLine (s : Text) : Text :=
  (s.reverse.takeWhile (· != '\n')).reverse

/-- The part before the first line feed. -/
def firstLine (s : Text) : Text :=
  s.takeWhile (· != '\n')

/-! ## Cutting and joining -/

/-- The parts between the separators, of which there is always one more than
separators. -/
def fields (sep : Char) : Text → List Text
  | [] => [[]]
  | c :: cs =>
    if c = sep then [] :: fields sep cs
    else
      match fields sep cs with
      -- never so: even the empty text has one part
      | [] => [[c]]
      | part :: parts => (c :: part) :: parts

/-- The parts with `sep` between neighbours. -/
def join (sep : Text) : List Text → Text
  | [] => []
  | [t] => t
  | t :: ts => t ++ sep ++ join sep ts

/-- `n` copies of a text. Nothing is copied if there is nothing to copy, be `n`
ever so large. -/
def times (n : Nat) (s : Text) : Text :=
  if s.isEmpty then [] else (List.replicate n s).flatten

/-- The decimal digits of a number. -/
def ofNat (n : Nat) : Text :=
  (toString n).toList

end Text

end TemplateTidy
