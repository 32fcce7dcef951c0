import TemplateTidy.Decimal.Nearest

/-!
# Shortest decimals

A binary floating-point number is written with the fewest digits that still
read back as the same number. Among the decimals of that length the one nearest
to the number is taken, and of two equally near ones the one with the even last
digit.

All comparisons are made in natural numbers. The numbers that round to
`m · 2 ^ q` are those between its two halfway points, and both points, like
the number itself, become integers after multiplication by a power of ten.
-/

namespace TemplateTidy.Decimal

/-- A non-negative number `significand · 2 ^ exponent` of double precision. -/
structure Binary where
  significand : Nat
  exponent : Int
  /-- The next smaller number is only half as far away as the next larger one. -/
  closeBelow : Bool
  deriving Repr, DecidableEq

/-- A non-negative number `digits · 10 ^ scale`. -/
structure Scaled where
  digits : Nat
  scale : Int
  deriving Repr, DecidableEq

/-- The number that 64 bits stand for, their sign aside. The bits of an
infinity or of no number at all have no meaning here. -/
def Binary.ofBits (bits : UInt64) : Binary :=
  let exponent : Nat := bits.toNat / hiddenBit % 0x800
  let fraction : Nat := bits.toNat % hiddenBit
  if exponent = 0 then ⟨fraction, -1074, false⟩
  else ⟨hiddenBit + fraction, (exponent : Int) - 1075, fraction == 0 && 1 < exponent⟩

/-- Number of decimal digits. -/
def length (n : Nat) : Nat :=
  (toString n).length

/-- Moves trailing zeros of the digits into the scale, at most `fuel` of them. -/
def Scaled.trim : Nat → Scaled → Scaled
  | 0, d => d
  | fuel + 1, d =>
    if d.digits ≠ 0 ∧ d.digits % 10 = 0 then trim fuel ⟨d.digits / 10, d.scale + 1⟩ else d

/-- Of the two neighbours of `v` on the grid of multiples of `g`, the one to be
printed, given which numbers `v` may be printed as. -/
def nearest? (inside : Nat → Bool) (v g : Nat) : Option Nat :=
  let below := v / g
  let above := below + 1
  match inside (below * g), inside (above * g) with
  | true, false => some below
  | false, true => some above
  | true, true =>
    let middle := (below + above) * g
    if 2 * v < middle || (2 * v == middle && below % 2 == 0) then some below else some above
  | false, false => none

/-- The shortest decimal that reads back as the given number. The coarsest grid
comes first; the finest holds the number itself, so the search finds one. -/
def shortest (x : Binary) : Scaled :=
  let places := (2 - x.exponent).toNat
  let unit := Nat.pow 2 (x.exponent - 2).toNat * Nat.pow 5 places
  -- everything times four, so that half and quarter steps are whole
  let value := 4 * x.significand * unit
  let low := (4 * x.significand - (if x.closeBelow then 1 else 2)) * unit
  let high := (4 * x.significand + 2) * unit
  let inside (d : Nat) : Bool :=
    -- a halfway point is rounded to the even significand
    if x.significand % 2 = 0 then low ≤ d && d ≤ high else low < d && d < high
  let candidate (i : Nat) : Option Scaled :=
    let dropped := length value - 1 - i
    (nearest? inside value (Nat.pow 10 dropped)).map fun d => ⟨d, (dropped : Int) - places⟩
  let found := (List.range (length value)).findSome? candidate
  Scaled.trim 20 (found.getD ⟨value, -(places : Int)⟩)

end TemplateTidy.Decimal
