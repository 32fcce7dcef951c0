import TemplateTidy.Marker.Codec
import TemplateTidy.Text.Quoted

/-!
# Choosing a nonce

A text that already holds a fragment of the usual sentinels gets a codec with
another nonce, drawn until none of its fragments occurs in the text. Draws that
are all different cannot collide for ever: every collision is another part of
the text, and there are fewer parts than the draws that `forText` is ready to
make.
-/

namespace TemplateTidy

/-- An unending supply of digits for nonces. No draw repeats another one. -/
structure Draws where
  digits : Nat → Text
  alphanumeric : ∀ k, (digits k).all Char.isAlphanum = true
  distinct : ∀ {i j}, digits i = digits j → i = j

namespace Text

/-- Number of hexadecimal digits. -/
def hexLength (n : Nat) : Nat :=
  Nat.log2 n / 4 + 1

/-- A digit of a number is a letter or a digit. -/
theorem isAlphanum_hexDigit (n : Nat) : (hexDigit n).isAlphanum = true := by
  have h : ∀ r : Fin 16, (hexDigit r).isAlphanum = true := by decide
  have := h ⟨n % 16, Nat.mod_lt n (by decide)⟩
  simpa [hexDigit] using this

theorem all_isAlphanum_hexFixed (width n : Nat) :
    (hexFixed width n).all Char.isAlphanum = true := by
  induction width generalizing n with
  | zero => rfl
  | succ width ih => simp [hexFixed, ih, isAlphanum_hexDigit, -List.all_eq_true]

/-- Digits tell sixteen values apart. -/
theorem hexDigit_inj {m n : Nat} (h : hexDigit m = hexDigit n) : m % 16 = n % 16 := by
  have hall : ∀ r s : Fin 16, hexDigit r = hexDigit s → r = s := by decide
  have hmod := hall ⟨m % 16, Nat.mod_lt m (by decide)⟩ ⟨n % 16, Nat.mod_lt n (by decide)⟩
    (by simpa [hexDigit] using h)
  simpa using hmod

/-- A number of fixed width has this width. -/
theorem length_hexFixed (width n : Nat) : (hexFixed width n).length = width := by
  induction width generalizing n with
  | zero => rfl
  | succ width ih => simp [hexFixed, ih]

/-- Numbers that have no more digits than are written are written differently. -/
theorem hexFixed_inj {width m n : Nat} (hm : m < Nat.pow 16 width) (hn : n < Nat.pow 16 width)
    (h : hexFixed width m = hexFixed width n) : m = n := by
  induction width generalizing m n with
  | zero =>
    rw [Nat.lt_one_iff.mp hm, Nat.lt_one_iff.mp hn]
  | succ width ih =>
    obtain ⟨hinit, hlast⟩ := List.append_inj' h rfl
    have hless : ∀ {k}, k < Nat.pow 16 (width + 1) → k / 16 < Nat.pow 16 width := fun hk =>
      Nat.div_lt_of_lt_mul (Nat.mul_comm _ 16 ▸ hk)
    have hdiv : m / 16 = n / 16 := ih (hless hm) (hless hn) hinit
    have hmod := hexDigit_inj (List.cons.inj hlast).1
    omega

/-- A number fits in its own width. -/
theorem lt_pow_hexLength (n : Nat) : n < Nat.pow 16 (hexLength n) := by
  show n < 16 ^ hexLength n
  have hpow : 16 ^ hexLength n = 2 ^ (4 * hexLength n) := Nat.pow_mul 2 4 (hexLength n) |>.symm
  rw [hpow]
  refine Nat.lt_of_lt_of_le Nat.lt_log2_self (Nat.pow_le_pow_right (by decide) ?_)
  unfold hexLength
  omega

end Text

namespace Draws

/-- Counts up from zero, in at least eight hexadecimal digits. -/
def counter : Draws where
  digits k := Text.hexFixed (max 8 (Text.hexLength k)) k
  alphanumeric _ := Text.all_isAlphanum_hexFixed _ _
  distinct {i j} h := by
    have hwidth := congrArg List.length h
    rw [Text.length_hexFixed, Text.length_hexFixed] at hwidth
    have hfit : ∀ k, k < Nat.pow 16 (max 8 (Text.hexLength k)) := fun k =>
      Nat.lt_of_lt_of_le (Text.lt_pow_hexLength k)
        (Nat.pow_le_pow_right (by decide) (Nat.le_max_right ..))
    rw [← hwidth] at h
    exact Text.hexFixed_inj (hfit i) (hwidth ▸ hfit j) h

end Draws

namespace Codec

/-- A fragment of the codec's sentinels occurs in the text. -/
def collides (k : Codec) (s : Text) : Bool :=
  Text.occursIn ('%' :: k.nonce) s || Text.occursIn (k.nonce ++ ['%']) s

/-- The codec of one draw. -/
def drawn (draws : Draws) (i : Nat) : Codec where
  nonce := "pcs".toList ++ draws.digits i
  valid := ⟨by simp, by
    rw [List.all_append, draws.alphanumeric i]
    decide⟩

/-- The codec of the first draw from `i` on that does not collide, and the next
draw. After `fuel` collisions the draw is no longer tested. -/
def search (draws : Draws) (s : Text) : Nat → Nat → Codec × Nat
  | 0, i => (drawn draws i, i + 1)
  | fuel + 1, i =>
    if (drawn draws i).collides s then search draws s fuel (i + 1) else (drawn draws i, i + 1)

/-- How many draws can collide with a text: less than two for each of its
parts. -/
def patience (s : Text) : Nat :=
  2 * (s.length + 1) * (s.length + 1)

/-- The codec for a text, and the draw to be made next. -/
def forText (draws : Draws) (i : Nat) (s : Text) : Codec × Nat :=
  if usual.collides s then search draws s (patience s) i else (usual, i)

end Codec

end TemplateTidy
