import TemplateTidy.Proofs.Segment.Restore

/-!
# Decoding undoes encoding

Encoded text is a sequence of plain characters and whole escapes that stands for
the text it was made from, and the wrappers around it stand for nothing. So
decoding gives the text back, bare or wrapped, as long as the text holds no
fragment of the sentinels — and it holds none if it is part of a text that holds
none.

Main result: `decode_encode_part`.
-/

namespace TemplateTidy

namespace Codec

open TemplateTidy.Symbol

/-- A text that holds no fragment is decoded from its encoded form, with and without a
comment around it. -/
theorem decode_encode {k : Codec} (hk : k.Branded) {s : Text} (hs : k.collides s = false)
    (style : Style) :
    k.decode (k.encode style s) = s ∧
      k.decode (k.wrapStart style ++ k.encode style s ++ k.wrapEnd style) = s := by
  obtain ⟨syms, hflat, hsense, hfresh⟩ := k.encode_eq_flat style s
  constructor
  · rw [hflat]
    exact decode_flat_fresh hk hfresh hsense hs
  · -- the wrappers are two more symbols, without a sense
    have hwrapped : k.wrapStart style ++ k.encode style s ++ k.wrapEnd style =
        flat k (Segment.opening style :: (syms ++ [Segment.closing style])) := by
      rw [flat_cons, flat_append, flat_cons, flat_nil, List.append_nil, Segment.text_opening,
        Segment.text_closing, hflat, List.append_assoc]
    rw [hwrapped]
    refine decode_flat_fresh hk ?_ ?_ hs
    · refine List.forall_mem_cons.mpr
        ⟨(Segment.opening_fresh style).1, List.forall_mem_append.mpr ⟨hfresh, ?_⟩⟩
      exact List.forall_mem_singleton.mpr (Segment.closing_fresh style).1
    · rw [List.flatMap_cons, List.flatMap_append, List.flatMap_singleton, hsense,
        (Segment.opening_fresh style).2, (Segment.closing_fresh style).2, List.nil_append,
        List.append_nil]

/-- The usual nonce followed by letters and digits makes a codec. -/
theorem ofNonce?_usual_append {digits : Text} (h : digits.all Char.isAlphanum = true) :
    ∃ k, ofNonce? (usual.nonce ++ digits) = some k ∧ k.nonce = usual.nonce ++ digits := by
  have hvalid : usual.nonce ++ digits ≠ [] ∧
      (usual.nonce ++ digits).all Char.isAlphanum = true := by
    rw [List.all_append, usual.valid.2, h]
    exact ⟨List.append_ne_nil_of_left_ne_nil usual.valid.1 digits, rfl⟩
  exact ⟨⟨_, hvalid⟩, dif_pos hvalid, rfl⟩

end Codec

/-- **Decoding undoes encoding** on every part of a text, under every nonce that is `pcs`
followed by letters and digits and has no fragment in the text: in either style, bare or
inside its comment. The codec that is chosen for a text has such a nonce. -/
theorem decode_encode_part (text s : Text) (hs : s <:+: text) (style : Style) :
    (∀ digits : Text, digits.all Char.isAlphanum = true →
      ¬ '%' :: ("pcs".toList ++ digits) <:+: text →
      ¬ ("pcs".toList ++ digits) ++ ['%'] <:+: text →
      ∃ k, Codec.ofNonce? ("pcs".toList ++ digits) = some k ∧
        k.decode (k.encode style s) = s ∧
        k.decode (k.wrapStart style ++ k.encode style s ++ k.wrapEnd style) = s) ∧
    ∀ draws draw, ∃ digits : Text, digits.all Char.isAlphanum = true ∧
      ¬ '%' :: ("pcs".toList ++ digits) <:+: text ∧
      ¬ ("pcs".toList ++ digits) ++ ['%'] <:+: text ∧
      Codec.ofNonce? ("pcs".toList ++ digits) = some (Codec.forText draws draw text).1 := by
  constructor
  · -- a nonce whose fragments are missing from the text is missing from all parts of it
    intro digits hdigits hbefore hbehind
    obtain ⟨k, hk, hnonce⟩ := Codec.ofNonce?_usual_append hdigits
    have htext : k.collides text = false := by
      rw [Codec.collides_eq_false_iff, hnonce]
      exact ⟨hbefore, hbehind⟩
    have hbranded : k.Branded := ⟨digits, hnonce.symm⟩
    exact ⟨k, hk, Codec.decode_encode hbranded (Codec.collides_eq_false_of_infix hs htext) style⟩
  · -- the codec that is drawn for the text has such a nonce
    intro draws draw
    have htext := Codec.collides_forText draws draw text
    have hvalid := (Codec.forText draws draw text).1.valid
    obtain ⟨digits, hnonce⟩ := Codec.branded_forText draws draw text
    rw [Codec.collides_eq_false_iff, ← hnonce] at htext
    have hdigits : digits.all Char.isAlphanum = true := by
      have hall := hvalid.2
      rw [← hnonce, List.all_append, Bool.and_eq_true] at hall
      exact hall.2
    refine ⟨digits, hdigits, htext.1, htext.2, ?_⟩
    have hsame : "pcs".toList ++ digits = (Codec.forText draws draw text).1.nonce := hnonce
    rw [hsame]
    exact dif_pos hvalid

/-- A part with quotes, a terminator and the front of a sentinel, of a text that holds the
letters of the nonce before a quote. -/
theorem decode_encode_part_pcs :
    let text := "a pcs\"%pc -->'% b".toList
    let s := "pcs\"%pc -->'%".toList
    s <:+: text ∧
      ¬ '%' :: ("pcs".toList ++ []) <:+: text ∧ ¬ ("pcs".toList ++ []) ++ ['%'] <:+: text ∧
      ∃ k, Codec.ofNonce? ("pcs".toList ++ []) = some k ∧
        k.decode (k.wrapStart .markup ++ k.encode .markup s ++ k.wrapEnd .markup) = s := by
  intro text s
  have hs : s <:+: text := ⟨"a ".toList, " b".toList, rfl⟩
  have hfree : Codec.usual.collides text = false := by decide +kernel
  obtain ⟨hbefore, hbehind⟩ := (Codec.collides_eq_false_iff Codec.usual text).mp hfree
  obtain ⟨k, hk, -, hwrapped⟩ := (decode_encode_part text s hs .markup).1 [] rfl hbefore hbehind
  exact ⟨hs, hbefore, hbehind, k, hk, hwrapped⟩

end TemplateTidy
