import TemplateTidy.Text.Blank

/-!
# Putting recognisers together

The few ways in which the recognisers of the lexical grammars are built: runs
of characters, one thing after another, and a thing after white space.
-/

namespace TemplateTidy.Recogniser

/-- One character of the first class, then as many as possible of the second. -/
def run (first rest : Char → Bool) : Recogniser
  | [] => none
  | c :: cs => if first c then some (1 + Text.leading rest cs) else none

/-- As many characters of a class as possible, at least one. -/
def many (p : Char → Bool) : Recogniser :=
  run p p

/-- One thing directly after another. -/
def andThen (first second : Recogniser) : Recogniser := fun s =>
  match first s with
  | some n => (second (s.drop n)).map (n + ·)
  | none => none

/-- The recogniser, provided that what follows passes a test. -/
def before (r : Recogniser) (test : Text → Bool) : Recogniser := fun s =>
  match r s with
  | some n => if test (s.drop n) then some n else none
  | none => none

/-- Everything up to and including the first occurrence of `closer`. -/
def through (closer : Text) : Recogniser :=
  Text.through? closer

/-- White space, at least `least` characters of it. -/
def gap (least : Nat) : Recogniser := fun s =>
  if least ≤ Text.blanks s then some (Text.blanks s) else none

/-- The recogniser after any white space. As much white space as possible is
passed over first; some of it may have to be given back, because a name may
begin with white space beyond ASCII. -/
def afterBlanks (r : Recogniser) : Recogniser
  | [] => r []
  | c :: cs =>
    if isBlank c then
      match afterBlanks r cs with
      | some n => some (1 + n)
      | none => r (c :: cs)
    else r (c :: cs)

/-- The recogniser after at least one character of white space. -/
def afterGap (r : Recogniser) : Recogniser
  | [] => none
  | c :: cs => if isBlank c then (afterBlanks r cs).map (1 + ·) else none

/-- The first of several recognisers that succeeds. -/
def firstOf (rs : List Recogniser) : Recogniser := fun s =>
  rs.findSome? fun r => r s

end TemplateTidy.Recogniser
