import Mathlib.Data.List.Infix
import TemplateTidy.Marker.Choice

/-!
# Occurrences

Searching as a statement about lists: `pat` is found in `s` exactly if it is an
infix of `s`. The rest of the module is about how infixes behave at the places
where texts are put together.

Main results:

* `Text.occursIn_iff` — the search finds exactly the infixes;
* `infix_append_cons_of_notMem` — a text without the character `c` does not
  reach across a `c`;
* `append_flatMap_eq_append_cons` — in a text put together from parts, every
  character lies in one of them.
-/

namespace TemplateTidy

/-! ## Searching -/

namespace Text

/-- A pattern is found exactly if it occurs. -/
theorem findFrom_isSome_iff (pat : Text) (i : Nat) (s : Text) :
    (findFrom pat i s).isSome = true ↔ pat <:+: s := by
  induction s generalizing i with
  | nil =>
    rw [findFrom, List.infix_nil]
    split
    · rename_i h
      simp [List.isEmpty_iff.mp h]
    · rename_i h
      simpa [List.isEmpty_iff] using h
  | cons c cs ih =>
    rw [findFrom, List.infix_cons_iff]
    split
    · rename_i h
      simp [List.isPrefixOf_iff_prefix.mp h]
    · rename_i h
      rw [ih, List.isPrefixOf_iff_prefix] at *
      simp [h]

/-- Where a pattern is found, it stands. -/
theorem findFrom_spec {pat s : Text} {i j : Nat} (h : findFrom pat i s = some j) :
    ∃ m, j = i + m ∧ pat <+: s.drop m := by
  induction s generalizing i with
  | nil =>
    rw [findFrom] at h
    split at h
    · rename_i hempty
      refine ⟨0, (Option.some.inj h).symm, ?_⟩
      rw [List.isEmpty_iff.mp hempty]
      exact List.nil_prefix
    · cases h
  | cons c s ih =>
    rw [findFrom] at h
    split at h
    · rename_i hpre
      exact ⟨0, (Option.some.inj h).symm, List.isPrefixOf_iff_prefix.mp hpre⟩
    · obtain ⟨m, rfl, hm⟩ := ih h
      exact ⟨m + 1, by omega, hm⟩

/-- The test for an occurrence is right. -/
theorem occursIn_iff (pat s : Text) : occursIn pat s = true ↔ pat <:+: s :=
  findFrom_isSome_iff pat 0 s

end Text

/-- A codec whose fragments do not occur in a text, in terms of infixes. -/
theorem Codec.collides_eq_false_iff (k : Codec) (s : Text) :
    k.collides s = false ↔ ¬ '%' :: k.nonce <:+: s ∧ ¬ k.nonce ++ ['%'] <:+: s := by
  rw [Codec.collides, Bool.or_eq_false_iff, ← Text.occursIn_iff, ← Text.occursIn_iff,
    Bool.not_eq_true, Bool.not_eq_true]

/-! ## Infixes and seams -/

/-- A text in which `c` does not occur lies on one side of a `c`. -/
theorem infix_append_cons_of_notMem {f a b : Text} {c : Char} (hc : c ∉ f)
    (h : f <:+: a ++ c :: b) : f <:+: a ∨ f <:+: b := by
  obtain ⟨s, t, hst⟩ := h
  rcases List.append_eq_append_iff.mp hst with ⟨a', ha, -⟩ | ⟨c', hf, hcb⟩
  · exact .inl ⟨s, a', by rw [ha]⟩
  rcases List.append_eq_append_iff.mp hf with ⟨x, rfl, hx⟩ | ⟨y, rfl, hy⟩
  · -- the text begins before the seam, so it ends there
    subst hx
    rcases List.cons_eq_append_iff.mp hcb with ⟨rfl, -⟩ | ⟨c'', rfl, -⟩
    · exact .inl ⟨s, [], by simp⟩
    · simp at hc
  · subst hy
    rw [List.append_assoc] at hcb
    rcases List.cons_eq_append_iff.mp hcb with ⟨rfl, hrest⟩ | ⟨y', rfl, hrest⟩
    · -- it begins at the seam: then it is empty
      rcases List.append_eq_cons_iff.mp hrest with ⟨rfl, -⟩ | ⟨f', rfl, -⟩
      · exact .inl List.nil_infix
      · simp at hc
    · exact .inr ⟨y', t, by rw [List.append_assoc, hrest]⟩

/-- A text in which `c` does not occur and that ends behind a `c` begins behind
it. -/
theorem suffix_of_suffix_append_cons {f a b : Text} {c : Char} (hc : c ∉ f)
    (h : f <:+ a ++ c :: b) : f <:+ b := by
  rcases List.suffix_or_suffix_of_suffix h (List.suffix_append a (c :: b)) with hf | hf
  · rcases List.suffix_cons_iff.mp hf with rfl | hf
    · exact absurd (List.mem_cons_self ..) hc
    · exact hf
  · exact absurd (hf.subset (List.mem_cons_self ..)) hc

/-- In a text put together from parts, every character lies in one of them. -/
theorem append_flatMap_eq_append_cons {α : Type} {f : α → Text} {y a b : Text} {c : Char}
    {xs : List α} (h : y ++ xs.flatMap f = a ++ c :: b) :
    (∃ y', y = a ++ c :: y' ∧ b = y' ++ xs.flatMap f) ∨
      ∃ before x after t₁ t₂, xs = before ++ x :: after ∧ f x = t₁ ++ c :: t₂ ∧
        a = y ++ before.flatMap f ++ t₁ ∧ b = t₂ ++ after.flatMap f := by
  induction xs generalizing y with
  | nil =>
    rw [List.flatMap_nil, List.append_nil] at h
    exact .inl ⟨b, h, by simp⟩
  | cons x xs ih =>
    rw [List.flatMap_cons, ← List.append_assoc] at h
    rcases ih h with ⟨y', hy, hb⟩ | ⟨before, x', after, t₁, t₂, rfl, hx', ha, hb⟩
    · -- the character lies in `y` or in the first part
      rcases List.append_eq_append_iff.mp hy with ⟨t₁, ha, ht⟩ | ⟨z, hz, hy'⟩
      · exact .inr ⟨[], x, xs, t₁, y', rfl, ht, by simpa using ha, hb⟩
      · rcases List.cons_eq_append_iff.mp hy' with ⟨rfl, hx⟩ | ⟨z', rfl, hx⟩
        · exact .inr ⟨[], x, xs, [], y', rfl, hx, by simpa using hz.symm, hb⟩
        · exact .inl ⟨z', hz, by rw [hb, hx, List.flatMap_cons, List.append_assoc]⟩
    · exact .inr ⟨x :: before, x', after, t₁, t₂, rfl, hx', by simpa using ha, hb⟩

end TemplateTidy
