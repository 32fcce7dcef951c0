/-!
# Nearest doubles

The double-precision number that is nearest to a quotient of natural numbers.
Of two equally near ones the one with the even significand is taken. All is done
in natural numbers: the quotient is scaled by a power of two so that its whole
part has as many bits as a significand, and is then rounded once.
-/

namespace TemplateTidy.Decimal

/-- The quotient rounded to the nearest whole number, half of it to the even
one. -/
def roundQuotient (num den : Nat) : Nat :=
  let below := num / den
  let twice := 2 * (num % den)
  if den < twice || (twice == den && below % 2 == 1) then below + 1 else below

/-- The quotient of `num` and `den` after division by a power of two. -/
def scaleDown (num den : Nat) (power : Int) : Nat × Nat :=
  (num <<< (-power).toNat, den <<< power.toNat)

/-- The exponent of the largest power of two that is not above the quotient. -/
def binaryExponent (num den : Nat) : Int :=
  let guess := (num.log2 : Int) - den.log2
  let (n, d) := scaleDown num den guess
  if d ≤ n then guess else guess - 1

/-- The smallest significand of a number that is not subnormal. -/
def hiddenBit : Nat :=
  0x10000000000000

/-- The bits of positive infinity. -/
def infiniteBits : Nat :=
  0x7FF0000000000000

/-- The bits of the double nearest to a positive quotient. A significand that
rounding makes too large for its exponent carries over into the exponent. -/
def nearestBits (num den : Nat) : Nat :=
  -- subnormal numbers share the smallest exponent and lose digits instead
  let power := max (binaryExponent num den - 52) (-1074)
  let (n, d) := scaleDown num den power
  let significand := roundQuotient n d
  let bits :=
    if significand < hiddenBit then significand
    else (power + 1074).toNat * hiddenBit + significand
  min bits infiniteBits

end TemplateTidy.Decimal
