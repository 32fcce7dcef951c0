import TemplateTidy.Decimal.Nearest
import TemplateTidy.Decimal.Shortest
import TemplateTidy.Text.Basic

/-!
# Floating-point numbers as text

Reading a decimal literal into the nearest double-precision number, and writing
such a number with the fewest digits that read back.
-/

namespace TemplateTidy.Json.Number

/-- The sign bit. -/
def signBit : UInt64 := 0x8000000000000000

/-- Positive infinity. -/
def infinity : UInt64 := UInt64.ofNat Decimal.infiniteBits

/-- The number that stands for the absence of one. -/
def notANumber : UInt64 := 0x7FF8000000000000

/-- The number with its sign turned. -/
def negate (bits : UInt64) : UInt64 :=
  bits ^^^ signBit

/-- The double nearest to `digits · 10 ^ scale`. What lies far outside the
range of doubles is infinite or zero and is not computed. -/
def ofDecimal (digits : Nat) (scale : Int) : UInt64 :=
  if digits = 0 then 0
  else
    let magnitude := Decimal.length digits + scale
    -- the largest double has 309 digits, the smallest begins at the 324th place
    if 400 < magnitude then infinity
    else if magnitude < -400 then 0
    else
      UInt64.ofNat
        (Decimal.nearestBits (digits * Nat.pow 10 scale.toNat) (Nat.pow 10 (-scale).toNat))

/-- The digits of a decimal, with its point at `point` characters from the
left. -/
def positional (digits : Text) (point : Int) : Text :=
  if point ≤ 0 then "0.".toList ++ List.replicate (-point).toNat '0' ++ digits
  else if (digits.length : Int) ≤ point then
    digits ++ List.replicate (point.toNat - digits.length) '0' ++ ".0".toList
  else digits.take point.toNat ++ '.' :: digits.drop point.toNat

/-- An exponent with its sign and at least two digits. -/
def exponentText (e : Int) : Text :=
  let digits := Text.ofNat e.natAbs
  (if e < 0 then '-' else '+') :: (List.replicate (2 - digits.length) '0' ++ digits)

/-- One digit, the others after a point, and the power of ten. -/
def exponential (digits : Text) (point : Int) : Text :=
  (match digits with
    | [] => []
    | [d] => [d]
    | d :: ds => d :: '.' :: ds) ++ 'e' :: exponentText (point - 1)

/-- A finite number without its sign: positional from a ten-thousandth up to
sixteen places before the point, exponential elsewhere. -/
def magnitudeText (bits : UInt64) : Text :=
  let x := Decimal.Binary.ofBits bits
  if x.significand = 0 then "0.0".toList
  else
    let d := Decimal.shortest x
    let digits := Text.ofNat d.digits
    let point : Int := digits.length + d.scale
    if -4 < point ∧ point ≤ 16 then positional digits point else exponential digits point

/-- The text of a floating-point number. -/
def text (bits : UInt64) : Text :=
  let magnitude := bits &&& ~~~signBit
  let sign : Text := if bits &&& signBit = 0 then [] else ['-']
  if magnitude = infinity then sign ++ "inf".toList
  else if infinity < magnitude then "nan".toList
  else sign ++ magnitudeText magnitude

end TemplateTidy.Json.Number
