/-!
# Context ranges

The parts of a template that lie in scripts and style sheets, where a comment
is written differently from markup. Ranges are half-open; an element that is
never closed reaches to the end of the template.
-/

namespace TemplateTidy

/-- A half-open range of offsets, unbounded if it has no end. -/
structure ContextRange where
  start : Int
  stop : Option Int
  deriving Repr, DecidableEq

namespace ContextRange

/-- The range has no end. -/
def isOpenEnded (r : ContextRange) : Bool :=
  r.stop.isNone

/-- The offset lies in the range. -/
def contains (r : ContextRange) (offset : Int) : Bool :=
  decide (r.start ≤ offset) && r.stop.all (offset < ·)

/-- Between `lo` and `hi`, the place of the first range that starts after the
offset, by bisection. It is the right place only if the starts ascend. -/
def upperBound (ranges : List ContextRange) (offset : Int) (lo hi : Nat) : Nat :=
  if lo < hi then
    let middle := (lo + hi) / 2
    match ranges[middle]? with
    | some r =>
      if offset < r.start then upperBound ranges offset lo middle
      else upperBound ranges offset (middle + 1) hi
    -- `hi` is never beyond the ranges
    | none => lo
  else lo
termination_by hi - lo

/-- The offset lies in the last range that starts at or before it. -/
def covers (ranges : List ContextRange) (offset : Int) : Bool :=
  match upperBound ranges offset 0 ranges.length with
  | 0 => false
  | i + 1 => ranges[i]?.any (·.contains offset)

end ContextRange

end TemplateTidy
