import TemplateTidy.Text.Printable

/-!
# Quoted texts

How a text is shown inside a message: between single quotes, or between double
quotes when it holds a single quote and no double one. Backslashes, the quote
in use and everything that cannot be printed are escaped.
-/

namespace TemplateTidy.Text

/-- The sixteen hexadecimal digits. -/
def hexDigit (n : Nat) : Char :=
  if n % 16 < 10 then Char.ofNat (0x30 + n % 16) else Char.ofNat (0x57 + n % 16)

/-- The last `width` hexadecimal digits of a number. -/
def hexFixed : Nat → Nat → Text
  | 0, _ => []
  | width + 1, n => hexFixed width (n / 16) ++ [hexDigit n]

/-- The quote a text is shown in. -/
def quoteMark (s : Text) : Char :=
  if s.contains '\'' && !s.contains '"' then '"' else '\''

/-- One character as shown between two quotes `q`. -/
def quotedChar (q c : Char) : Text :=
  if c == q || c == '\\' then ['\\', c]
  else if c == '\t' then "\\t".toList
  else if c == '\n' then "\\n".toList
  else if c == '\r' then "\\r".toList
  else if isPrintable c then [c]
  else if c.toNat ≤ 0xFF then "\\x".toList ++ hexFixed 2 c.toNat
  else if c.toNat ≤ 0xFFFF then "\\u".toList ++ hexFixed 4 c.toNat
  else "\\U".toList ++ hexFixed 8 c.toNat

/-- The text as it is shown inside a message. -/
def quoted (s : Text) : Text :=
  let q := quoteMark s
  q :: s.flatMap (quotedChar q) ++ [q]

end TemplateTidy.Text
