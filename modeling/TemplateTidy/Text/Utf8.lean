import TemplateTidy.Text.Quoted

/-!
# UTF-8

Decoding bytes into text. The first byte of a character says how many follow
and which range the next one must lie in; that range alone rules out surrogates,
overlong forms and characters beyond the last one.
-/

namespace TemplateTidy.Utf8

/-- What is wrong with a sequence of bytes. -/
inductive Problem where
  | startByte
  | continuationByte
  | endOfData
  deriving Repr, DecidableEq

/-- The bytes from `start` up to, and not including, `stop` are wrong. -/
structure Fault where
  problem : Problem
  start : Nat
  stop : Nat
  first : UInt8
  deriving Repr, DecidableEq

/-- The wording of a problem. -/
def Problem.message : Problem → Text
  | startByte => "invalid start byte".toList
  | continuationByte => "invalid continuation byte".toList
  | endOfData => "unexpected end of data".toList

/-- The wording of a fault. -/
def Fault.message (f : Fault) : Text :=
  "'utf-8' codec can't decode byte".toList ++
    (if f.stop = f.start + 1 then
      " 0x".toList ++ Text.hexFixed 2 f.first.toNat ++ " in position ".toList ++ Text.ofNat f.start
    else
      "s in position ".toList ++ Text.ofNat f.start ++ '-' :: Text.ofNat (f.stop - 1)) ++
    ": ".toList ++ f.problem.message

/-- What the first byte of a character of several bytes promises: how many
bytes follow, the range of the first of them, and the bits it gives itself. -/
structure Lead where
  following : Nat
  low : UInt8
  high : UInt8
  bits : Nat

/-- What a first byte promises, unless no character begins with it. -/
def lead? (b : UInt8) : Option Lead :=
  if b < 0x80 then some ⟨0, 0x80, 0xBF, b.toNat⟩
  -- a byte that follows another one, or the front of an overlong form
  else if b < 0xC2 then none
  else if b < 0xE0 then some ⟨1, 0x80, 0xBF, b.toNat - 0xC0⟩
  else if b < 0xF0 then
    -- `E0` with less than `A0` would be overlong, `ED` with more than `9F` a surrogate
    some ⟨2, if b = 0xE0 then 0xA0 else 0x80, if b = 0xED then 0x9F else 0xBF, b.toNat - 0xE0⟩
  else if b < 0xF5 then
    -- `F0` could be overlong as well, and `F4` lead beyond the last character
    some ⟨3, if b = 0xF0 then 0x90 else 0x80, if b = 0xF4 then 0x8F else 0xBF, b.toNat - 0xF0⟩
  else none

/-- Reads the bytes that follow the first one, or says after how many of them
something is wrong, and what. -/
def following (low high : UInt8) (bits read : Nat) : Nat → List UInt8 → Except (Problem × Nat) Nat
  | 0, _ => .ok bits
  | _ + 1, [] => .error (.endOfData, read)
  | n + 1, b :: bs =>
    if low ≤ b && b ≤ high then
      -- only the first byte that follows has a range of its own
      following 0x80 0xBF (bits * 64 + (b.toNat - 0x80)) (read + 1) n bs
    else .error (.continuationByte, read)

/-- Decodes the bytes from a position on. -/
def decodeFrom (position : Nat) (bytes : List UInt8) : Except Fault Text :=
  match bytes with
  | [] => .ok []
  | b :: bs =>
    match lead? b with
    | none => .error ⟨.startByte, position, position + 1, b⟩
    | some lead =>
      match following lead.low lead.high lead.bits 1 lead.following bs with
      | .error (problem, read) => .error ⟨problem, position, position + read, b⟩
      | .ok n => do
        let rest ← decodeFrom (position + 1 + lead.following) (bs.drop lead.following)
        return Char.ofNat n :: rest
termination_by bytes.length
decreasing_by
  simp only [List.length_drop, List.length_cons]
  omega

/-- Decodes bytes. -/
def decode (bytes : List UInt8) : Except Fault Text :=
  decodeFrom 0 bytes

end TemplateTidy.Utf8
