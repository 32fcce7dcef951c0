import TemplateTidy.Text.Basic

/-!
# How long a whole number may be

A whole number in decimal notation is read only up to a certain number of
digits, leading zeros included. Settings files and the numeric references of
markup share this limit and the wording of its violation.
-/

namespace TemplateTidy.Decimal

/-- The most digits that a whole number may have. -/
def digitLimit : Nat :=
  4300

/-- What is said about a number with too many digits. -/
def limitMessage (digits : Nat) : Text :=
  "Exceeds the limit (".toList ++ Text.ofNat digitLimit ++
    " digits) for integer string conversion: value has ".toList ++ Text.ofNat digits ++
    " digits; use sys.set_int_max_str_digits() to increase the limit".toList

end TemplateTidy.Decimal
