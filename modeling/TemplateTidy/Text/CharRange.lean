import TemplateTidy.Text.Basic

/-!
# Character ranges

A character class of Unicode is given as the ascending list of its maximal
ranges of code points. The tables are those of Unicode 14.
-/

namespace TemplateTidy

/-- Ascending, disjoint ranges of code points, both ends included. -/
abbrev CharRanges := List (Nat × Nat)

namespace CharRanges

/-- Whether a code point lies in one of the ranges. The search stops at the
first range beyond it, which is right because the ranges ascend. -/
def member : CharRanges → Nat → Bool
  | [], _ => false
  | (lo, hi) :: rest, n => if n < lo then false else n ≤ hi || member rest n

end CharRanges

end TemplateTidy
