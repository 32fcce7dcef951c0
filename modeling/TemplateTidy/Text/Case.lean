import TemplateTidy.Text.CaseTable

/-!
# Letter case

Lower-casing, capitalising and comparison without regard to case, for all of
Unicode.

Two rules go beyond a table from characters to characters: the dotted capital
I is lowered to two characters, and a capital sigma is lowered to its final
form at the end of a word. Which form it takes depends on the neighbours in
the text as it stands before anything is lowered.
-/

namespace TemplateTidy

/-- The small letter of a capital one, as a single character. -/
def smallLetter (c : Char) : Char :=
  if c.toNat < 0x80 then c.toLower
  -- the dotted capital I without the dot, which is a character of its own
  else if c.toNat = 0x130 then 'i'
  else ((caseImage? smallRuns c.toNat).map Char.ofNat).getD c

/-- What a character is lowered to wherever it stands. -/
def smallForm (c : Char) : Text :=
  if c.toNat = 0x130 then ['i', Char.ofNat 0x307] else [smallLetter c]

/-- What a character becomes at the front of a capitalised text. -/
def titleForm (c : Char) : Text :=
  if c.toNat < 0x80 then [c.toUpper]
  else
    match titleSequences.lookup c.toNat with
    | some ns => ns.map Char.ofNat
    | none => [((caseImage? titleRuns c.toNat).map Char.ofNat).getD c]

/-- Two characters are the same letter when case is ignored. -/
def sameLetter (p c : Char) : Bool :=
  let lowered := smallLetter c
  lowered == smallLetter p
    || ((casePartners.lookup (smallLetter p).toNat).getD []).contains lowered.toNat

namespace Text

/-- The first character that is not skipped in looking for a neighbour has
case. -/
def meetsCased (s : Text) : Bool :=
  match s.dropWhile (caseIgnorableRanges.member ·.toNat) with
  | [] => false
  | c :: _ => casedRanges.member c.toNat

/-- A capital sigma between these neighbours ends a word. The text before it is
given nearest character first. -/
def endsAtSigma (before after : Text) : Bool :=
  meetsCased before && !meetsCased after

/-- Lowers a text of which the characters in `before`, nearest first, have
already been passed. -/
def lowerFrom (before : Text) : Text → Text
  | [] => []
  | c :: cs =>
    -- both neighbours of a sigma are looked at as they stood before
    (if c.toNat = 0x3A3 then
      [if endsAtSigma before cs then Char.ofNat 0x3C2 else Char.ofNat 0x3C3]
    else smallForm c) ++ lowerFrom (c :: before) cs

/-- The text in small letters. -/
def lower (s : Text) : Text :=
  lowerFrom [] s

/-- The first character in its title form, the others in small letters. -/
def capitalize : Text → Text
  | [] => []
  | c :: cs => titleForm c ++ lowerFrom [c] cs

/-- The text begins with `pat` when case is ignored. -/
def beginsIgnoringCase : Text → Text → Bool
  | [], _ => true
  | _ :: _, [] => false
  | p :: ps, c :: cs => sameLetter p c && beginsIgnoringCase ps cs

/-- Recognises `pat` in any letter case. -/
def literalIgnoringCase (pat : Text) : Recogniser := fun s =>
  if beginsIgnoringCase pat s then some pat.length else none

end Text

end TemplateTidy
