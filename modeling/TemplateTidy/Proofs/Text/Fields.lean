import TemplateTidy.Text.Basic

/-!
# Cutting at separators and joining again

Cutting a text at separators is what lists call splitting, and joining is intercalating. So
two texts with a separator between them have the parts of the one and of the other, and
parts that have been joined are found again.

Main results: `Text.fields_append`, `Text.fields_join`.
-/

namespace TemplateTidy.Text

variable {sep : Char}

/-- The parts between separators are those that a list is split into. -/
theorem fields_eq_splitOn (sep : Char) (s : Text) : fields sep s = s.splitOn sep := by
  induction s with
  | nil => rfl
  | cons c s ih =>
    rw [fields, List.splitOn_cons_eq_if_modifyHead, ih]
    by_cases hc : c = sep
    · rw [if_pos hc, if_pos (beq_iff_eq.mpr hc)]
    · rw [if_neg hc, if_neg (by simpa using hc)]
      obtain ⟨part, parts, hparts⟩ := List.exists_cons_of_ne_nil (List.splitOn_ne_nil sep s)
      rw [hparts]
      rfl

/-- Joining puts the separator between neighbours. -/
theorem join_eq_intercalate (sep : Text) (parts : List Text) :
    join sep parts = sep.intercalate parts := by
  induction parts with
  | nil => rfl
  | cons t ts ih =>
    cases ts with
    | nil => exact List.intercalate_singleton.symm
    | cons u us =>
      rw [List.intercalate_cons_cons, ← ih]
      rfl

/-- Each part but the first follows a separator. -/
theorem join_cons (sep t : Text) (ts : List Text) :
    join sep (t :: ts) = t ++ ts.flatMap (sep ++ ·) := by
  induction ts generalizing t with
  | nil => rw [List.flatMap_nil, List.append_nil, join]
  | cons u us ih =>
    have hstep : join sep (t :: u :: us) = t ++ sep ++ join sep (u :: us) := rfl
    rw [hstep, ih, List.flatMap_cons, List.append_assoc, List.append_assoc]

/-- A separator between two texts separates their parts. -/
theorem fields_append (s t : Text) :
    fields sep (s ++ sep :: t) = fields sep s ++ fields sep t := by
  simp only [fields_eq_splitOn, List.splitOn_append_cons_self]

/-- Parts without separators are found again in what they are joined to. -/
theorem fields_join {parts : List Text} (h : ∀ p ∈ parts, sep ∉ p) (hne : parts ≠ []) :
    fields sep (join [sep] parts) = parts := by
  rw [fields_eq_splitOn, join_eq_intercalate, List.splitOn_intercalate sep h hne]

/-- There is always a part, if only an empty one. -/
theorem fields_ne_nil (sep : Char) (s : Text) : fields sep s ≠ [] := by
  rw [fields_eq_splitOn]
  exact List.splitOn_ne_nil sep s

/-- Only the empty text is a single empty part. -/
theorem eq_nil_of_fields_eq {s : Text} (h : fields sep s = [[]]) : s = [] := by
  have hjoin : [sep].intercalate (fields sep s) = s := by
    rw [fields_eq_splitOn, List.intercalate_splitOn]
  rw [← hjoin, h, List.intercalate_singleton]

/-- The parts hold characters of the text, and no separators. -/
theorem mem_and_ne_of_mem_fields {s p : Text} {d : Char} (hp : p ∈ fields sep s) (hd : d ∈ p) :
    d ∈ s ∧ d ≠ sep := by
  induction s generalizing p with
  | nil =>
    rw [List.mem_singleton.mp hp] at hd
    cases hd
  | cons c s ih =>
    have hlater : ∀ {p}, p ∈ fields sep s → d ∈ p → d ∈ c :: s ∧ d ≠ sep := fun hp hd =>
      ⟨List.mem_cons_of_mem c (ih hp hd).1, (ih hp hd).2⟩
    rw [fields] at hp
    split at hp
    · rcases List.mem_cons.mp hp with rfl | hp
      · cases hd
      · exact hlater hp hd
    · rename_i hc
      split at hp
      · rw [List.mem_singleton.mp hp, List.mem_singleton] at hd
        exact ⟨hd ▸ List.mem_cons_self .., hd ▸ hc⟩
      · rename_i part parts hparts
        rcases List.mem_cons.mp hp with rfl | hp
        · -- the character has joined the first part behind it
          rcases List.mem_cons.mp hd with rfl | hd
          · exact ⟨List.mem_cons_self .., hc⟩
          · exact hlater (hparts ▸ List.mem_cons_self ..) hd
        · exact hlater (hparts ▸ List.mem_cons_of_mem part hp) hd

/-- No part holds a separator. -/
theorem notMem_of_mem_fields {s p : Text} (h : p ∈ fields sep s) : sep ∉ p := fun hsep =>
  (mem_and_ne_of_mem_fields h hsep).2 rfl

end TemplateTidy.Text
