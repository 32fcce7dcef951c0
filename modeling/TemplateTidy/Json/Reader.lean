import TemplateTidy.Decimal.Limit
import TemplateTidy.Json.Number
import TemplateTidy.Json.Value

/-!
# Reading JSON

A reader that says what it expected and where. Besides the numbers of the JSON
grammar it takes the words `NaN`, `Infinity` and `-Infinity`; whole numbers must
not be too long. Of a key that is repeated in one object the last value
counts.

Inside the reader a place in the document is the rest of it from there on.
`read` turns it into an offset, a line and a column.
-/

namespace TemplateTidy.Json

/-- What is wrong with a document. -/
inductive Problem where
  | value
  | propertyName
  | colon
  | comma
  | extraData
  | controlCharacter
  | unterminatedString
  | badEscape
  | badUnicodeEscape
  | byteOrderMark
  deriving Repr, DecidableEq

/-- The wording of a problem. -/
def Problem.message : Problem → Text
  | value => "Expecting value".toList
  | propertyName => "Expecting property name enclosed in double quotes".toList
  | colon => "Expecting ':' delimiter".toList
  | comma => "Expecting ',' delimiter".toList
  | extraData => "Extra data".toList
  | controlCharacter => "Invalid control character at".toList
  | unterminatedString => "Unterminated string starting at".toList
  | badEscape => "Invalid \\escape".toList
  | badUnicodeEscape => "Invalid \\uXXXX escape".toList
  | byteOrderMark => "Unexpected UTF-8 BOM (decode using utf-8-sig)".toList

/-- Why a document could not be read. -/
inductive ReadError where
  /-- The problem lies after `offset` characters. -/
  | malformed (problem : Problem) (line column offset : Nat)
  /-- A whole number has too many digits. -/
  | tooManyDigits (digits : Nat)
  deriving Repr, DecidableEq

/-- The message of a reading error. -/
def ReadError.message : ReadError → Text
  | malformed problem line column offset =>
    problem.message ++ ": line ".toList ++ Text.ofNat line ++ " column ".toList ++
      Text.ofNat column ++ " (char ".toList ++ Text.ofNat offset ++ ")".toList
  | tooManyDigits digits => Decimal.limitMessage digits

namespace Reader

/-- A reading error whose place is given by what remains of the document. -/
inductive Fault where
  | at (problem : Problem) (rest : Text)
  | tooManyDigits (digits : Nat)

/-- White space between the parts of a document. -/
def isGap (c : Char) : Bool :=
  c == ' ' || c == '\t' || c == '\n' || c == '\r'

/-- The document from the next part on. -/
def skipGap (s : Text) : Text :=
  s.dropWhile isGap

/-- The value of a hexadecimal digit. -/
def hexValue? (c : Char) : Option Nat :=
  if '0' ≤ c && c ≤ '9' then some (c.toNat - 0x30)
  else if 'a' ≤ c && c ≤ 'f' then some (c.toNat - 0x57)
  else if 'A' ≤ c && c ≤ 'F' then some (c.toNat - 0x37)
  else none

/-- The value of four hexadecimal digits. -/
def hexValues? (a b c d : Char) : Option Nat := do
  let a ← hexValue? a
  let b ← hexValue? b
  let c ← hexValue? c
  let d ← hexValue? d
  return ((a * 16 + b) * 16 + c) * 16 + d

/-- The first half of a pair of escapes for one character. -/
def isHighHalf (n : Nat) : Bool :=
  0xD800 ≤ n && n < 0xDC00

/-- The second half of a pair of escapes for one character. -/
def isLowHalf (n : Nat) : Bool :=
  0xDC00 ≤ n && n < 0xE000

/-- The character of a code point; half a pair alone has none of its own. -/
def charOf (n : Nat) : Char :=
  if isHighHalf n || isLowHalf n then Char.ofNat 0xFFFD else Char.ofNat n

/-- The character of a pair of halves. -/
def joined (high low : Nat) : Char :=
  Char.ofNat (0x10000 + (high - 0xD800) * 0x400 + (low - 0xDC00))

/-- The character that a one-letter escape stands for. -/
def escaped? (c : Char) : Option Char :=
  match c with
  | '"' => some '"'
  | '\\' => some '\\'
  | '/' => some '/'
  | 'b' => some '\x08'
  | 'f' => some '\x0c'
  | 'n' => some '\n'
  | 'r' => some '\r'
  | 't' => some '\t'
  | _ => none

/-- Puts a character in front of a string that has been read. -/
def cons (c : Char) : Except Fault (Text × Text) → Except Fault (Text × Text)
  | .ok (s, rest) => .ok (c :: s, rest)
  | .error e => .error e

/-- The characters of a string up to its closing quote, and what follows the
quote. `opening` is the document from the opening quote on. -/
def stringBody (opening : Text) : Text → Except Fault (Text × Text)
  | [] => .error (.at .unterminatedString opening)
  | ['\\'] => .error (.at .unterminatedString opening)
  | '"' :: rest => .ok ([], rest)
  -- two escapes in a row may be the halves of one character; `next` is asked for because four
  -- digits at the very end of the document are no escape
  | '\\' :: 'u' :: a :: b :: c :: d :: '\\' :: 'u' :: a' :: b' :: c' :: d' :: next :: rest =>
    let second := 'u' :: a' :: b' :: c' :: d' :: next :: rest
    match hexValues? a b c d with
    | none => .error (.at .badUnicodeEscape ('u' :: a :: b :: c :: d :: '\\' :: second))
    | some n =>
      if isHighHalf n then
        match hexValues? a' b' c' d' with
        | none => .error (.at .badUnicodeEscape second)
        | some m =>
          if isLowHalf m then cons (joined n m) (stringBody opening (next :: rest))
          -- the second escape is read again, on its own
          else
            cons (charOf n)
              (stringBody opening ('\\' :: 'u' :: a' :: b' :: c' :: d' :: next :: rest))
      else
        cons (charOf n)
          (stringBody opening ('\\' :: 'u' :: a' :: b' :: c' :: d' :: next :: rest))
  | '\\' :: 'u' :: a :: b :: c :: d :: next :: rest =>
    match hexValues? a b c d with
    | none => .error (.at .badUnicodeEscape ('u' :: a :: b :: c :: d :: next :: rest))
    | some n => cons (charOf n) (stringBody opening (next :: rest))
  | '\\' :: 'u' :: rest => .error (.at .badUnicodeEscape ('u' :: rest))
  | '\\' :: c :: rest =>
    match escaped? c with
    | none => .error (.at .badEscape ('\\' :: c :: rest))
    | some e => cons e (stringBody opening rest)
  | c :: rest =>
    if c.toNat < 0x20 then .error (.at .controlCharacter (c :: rest))
    else cons c (stringBody opening rest)

/-- The number that a sequence of decimal digits stands for. -/
def digitsValue (ds : Text) : Nat :=
  ds.foldl (fun n d => n * 10 + (d.toNat - 0x30)) 0

/-- The whole part of a number: a zero alone, or digits that begin with another
one. -/
def wholeDigits? (s : Text) : Option (Text × Text) :=
  match s with
  | '0' :: rest => some (['0'], rest)
  | c :: _ => if c.isDigit then some (s.takeWhile Char.isDigit, s.dropWhile Char.isDigit) else none
  | [] => none

/-- The digits after a point, if a digit follows the point. -/
def fraction (s : Text) : Text × Text :=
  match s with
  | '.' :: rest =>
    match rest.takeWhile Char.isDigit with
    | [] => ([], s)
    | ds => (ds, rest.dropWhile Char.isDigit)
  | _ => ([], s)

/-- The power of ten, if digits follow the mark. -/
def exponent (s : Text) : Option Int × Text :=
  let digits (negative : Bool) (rest : Text) : Option Int × Text :=
    match rest.takeWhile Char.isDigit with
    | [] => (none, s)
    | ds =>
      let n : Int := digitsValue ds
      (some (if negative then -n else n), rest.dropWhile Char.isDigit)
  match s with
  | 'e' :: '-' :: rest | 'E' :: '-' :: rest => digits true rest
  | 'e' :: '+' :: rest | 'E' :: '+' :: rest => digits false rest
  | 'e' :: rest | 'E' :: rest => digits false rest
  | _ => (none, s)

/-- A number without its sign. `start` is the document from the sign on. -/
def magnitude (negative : Bool) (start s : Text) : Except Fault (Json × Text) :=
  match wholeDigits? s with
  | none => .error (.at .value start)
  | some (whole, rest) =>
    let (places, rest) := fraction rest
    let (power, rest) := exponent rest
    -- a point or a power makes a floating-point number, even one with a whole value
    if places.isEmpty && power.isNone then
      if Decimal.digitLimit < whole.length then .error (.tooManyDigits whole.length)
      else
        let n : Int := digitsValue whole
        .ok (.int (if negative then -n else n), rest)
    else
      let bits := Number.ofDecimal (digitsValue (whole ++ places)) (power.getD 0 - places.length)
      .ok (.real (if negative then Number.negate bits else bits), rest)

/-- A value that is one word or one number. -/
def scalar (s : Text) : Except Fault (Json × Text) :=
  if "null".toList.isPrefixOf s then .ok (.null, s.drop 4)
  else if "true".toList.isPrefixOf s then .ok (.bool true, s.drop 4)
  else if "false".toList.isPrefixOf s then .ok (.bool false, s.drop 5)
  else if "NaN".toList.isPrefixOf s then .ok (.real Number.notANumber, s.drop 3)
  else if "Infinity".toList.isPrefixOf s then .ok (.real Number.infinity, s.drop 8)
  else if "-Infinity".toList.isPrefixOf s then
    .ok (.real (Number.negate Number.infinity), s.drop 9)
  else
    match s with
    | '-' :: rest => magnitude true s rest
    | _ => magnitude false s s

mutual

/-- One value and what follows it. Every part of a document takes at least one
character, so fuel twice as long as the document is never used up. -/
def value : Nat → Text → Except Fault (Json × Text)
  | 0, s => .error (.at .value s)
  | fuel + 1, s =>
    match s with
    | '"' :: rest => do
      let (t, rest) ← stringBody s rest
      return (.str t, rest)
    | '[' :: rest =>
      match skipGap rest with
      | ']' :: rest => .ok (.list [], rest)
      | rest => do
        let (vs, rest) ← items fuel rest
        return (.list vs, rest)
    | '{' :: rest =>
      match skipGap rest with
      | '}' :: rest => .ok (.object [], rest)
      | rest => do
        let (ms, rest) ← members fuel rest
        return (.object (Record.ofMembers ms), rest)
    | _ => scalar s

/-- The values of a list up to its closing bracket. -/
def items : Nat → Text → Except Fault (List Json × Text)
  | 0, s => .error (.at .value s)
  | fuel + 1, s => do
    let (v, rest) ← value fuel s
    match skipGap rest with
    | ']' :: rest => return ([v], rest)
    | ',' :: rest =>
      let (vs, rest) ← items fuel (skipGap rest)
      return (v :: vs, rest)
    | rest => .error (.at .comma rest)

/-- The members of an object up to its closing brace. -/
def members : Nat → Text → Except Fault (List (Text × Json) × Text)
  | 0, s => .error (.at .value s)
  | fuel + 1, s =>
    match s with
    | '"' :: rest => do
      let (key, rest) ← stringBody s rest
      match skipGap rest with
      | ':' :: rest =>
        let (v, rest) ← value fuel (skipGap rest)
        match skipGap rest with
        | '}' :: rest => return ([(key, v)], rest)
        | ',' :: rest =>
          let (ms, rest) ← members fuel (skipGap rest)
          return ((key, v) :: ms, rest)
        | rest => .error (.at .comma rest)
      | rest => .error (.at .colon rest)
    | _ => .error (.at .propertyName s)

end

/-- A whole document: one value with nothing but gaps around it. -/
def document (s : Text) : Except Fault Json :=
  if s.head? = some (Char.ofNat 0xFEFF) then .error (.at .byteOrderMark s)
  else do
    let (v, rest) ← value (2 * s.length + 2) (skipGap s)
    match skipGap rest with
    | [] => return v
    | rest => .error (.at .extraData rest)

/-- The error for a fault in the document `s`. -/
def Fault.locate (s : Text) : Fault → ReadError
  | .at problem rest =>
    let offset := s.length - rest.length
    let passed := s.take offset
    .malformed problem (Text.newlines passed + 1) ((Text.lastLine passed).length + 1) offset
  | .tooManyDigits digits => .tooManyDigits digits

end Reader

/-- Reads a JSON document. -/
def read (s : Text) : Except ReadError Json :=
  (Reader.document s).mapError (Reader.Fault.locate s)

end TemplateTidy.Json
