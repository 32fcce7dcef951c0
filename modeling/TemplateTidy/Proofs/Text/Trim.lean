import Mathlib.Data.List.DropRight
import TemplateTidy.Text.Blank

/-!
# White space at the end of a text

Every text is its trimmed part followed by white space, and both are
determined by that: `eq_trimRight` is how all the others use it. Texts that
lose nothing when trimmed are called *tight*.
-/

namespace TemplateTidy.Text

/-- Every character is white space. -/
def Blank (s : Text) : Prop :=
  s.all isBlank = true

instance (s : Text) : Decidable s.Blank :=
  inferInstanceAs (Decidable (_ = _))

@[simp] theorem blank_nil : Blank [] := rfl

@[simp] theorem blank_cons {c : Char} {s : Text} :
    Blank (c :: s) ↔ isBlank c = true ∧ Blank s := by
  simp [Blank]

@[simp] theorem blank_append {s t : Text} : Blank (s ++ t) ↔ Blank s ∧ Blank t := by
  simp [Blank, -List.all_eq_true]

theorem Blank.of_mem {s : Text} (hs : Blank s) {c : Char} (hc : c ∈ s) : isBlank c = true :=
  List.all_eq_true.mp hs c hc

theorem blank_reverse {s : Text} : Blank s.reverse ↔ Blank s := by
  simp [Blank]

/-- One character of white space, repeated, is white space. -/
theorem blank_replicate {c : Char} (hc : isBlank c = true) (n : Nat) :
    Blank (List.replicate n c) := by
  rw [Blank, List.all_eq_true]
  intro d hd
  rwa [List.eq_of_mem_replicate hd]

/-- White space joined to white space is white space. -/
theorem blank_flatten {ss : List Text} (h : ∀ s ∈ ss, Blank s) : Blank ss.flatten := by
  induction ss with
  | nil => rfl
  | cons s ss ih =>
    rw [List.flatten_cons, blank_append]
    exact ⟨h s (List.mem_cons_self ..), ih fun t ht => h t (List.mem_cons_of_mem _ ht)⟩

/-- The white space at the end. -/
def trailing (s : Text) : Text :=
  s.rtakeWhile isBlank

/-- A text is its trimmed front and the white space behind that. -/
theorem trimRight_append_trailing (s : Text) : trimRight s ++ trailing s = s :=
  List.rdropWhile_append_rtakeWhile

/-- What is trimmed from the end is white space. -/
theorem blank_trailing (s : Text) : Blank (trailing s) :=
  List.all_eq_true.mpr fun _ hc => List.mem_rtakeWhile_imp hc

/-- Trimming leaves nothing of white space, and only of that. -/
theorem trimRight_eq_nil_iff {s : Text} : trimRight s = [] ↔ Blank s :=
  List.rdropWhile_eq_nil_iff.trans List.all_eq_true.symm

/-- Trimming loses nothing: the text is empty or ends in a letter. -/
def Tight (s : Text) : Prop :=
  trimRight s = s

/-- A trimmed text has nothing more to trim. -/
theorem tight_trimRight (s : Text) : Tight (trimRight s) :=
  List.rdropWhile_idempotent isBlank s

/-- A text that ends in a letter is tight. -/
theorem tight_concat {c : Char} (hc : isBlank c = false) (s : Text) : Tight (s ++ [c]) :=
  List.rdropWhile_concat_neg isBlank s c (by simp [hc])

/-- White space put behind a text is trimmed off again. -/
theorem trimRight_append_blank {s b : Text} (hb : Blank b) : trimRight (s ++ b) = trimRight s := by
  induction b using List.reverseRecOn with
  | nil => rw [List.append_nil]
  | append_singleton b c ih =>
    rw [blank_append, blank_cons] at hb
    rw [← List.append_assoc]
    exact (List.rdropWhile_concat_pos isBlank _ c hb.2.1).trans (ih hb.1)

/-- A text that is not blank shields all before it. -/
theorem trimRight_append {s t : Text} (ht : ¬ Blank t) : trimRight (s ++ t) = s ++ trimRight t := by
  have hne : trimRight t ≠ [] := fun h => ht (trimRight_eq_nil_iff.mp h)
  obtain ⟨u, c, hu⟩ := List.eq_nil_or_concat (trimRight t) |>.resolve_left hne
  rw [List.concat_eq_append] at hu
  -- the last character that is left is no blank
  have hc : isBlank c = false := by
    have hlast := List.rdropWhile_last_not isBlank t hne
    rw [Bool.not_eq_true] at hlast
    have hget : (trimRight t).getLast hne = c := by simp [hu]
    rwa [← hget]
  calc trimRight (s ++ t)
      = trimRight (s ++ trimRight t ++ trailing t) := by
        rw [List.append_assoc, trimRight_append_trailing]
    _ = trimRight (s ++ u ++ [c]) := by
        rw [trimRight_append_blank (blank_trailing t), hu, List.append_assoc]
    _ = s ++ trimRight t := by
        rw [tight_concat hc (s ++ u), hu, List.append_assoc]

/-- A tight text shields itself. -/
theorem trimRight_append_of_tight {s : Text} (hs : Tight s) (t : Text) :
    trimRight (s ++ t) = s ++ trimRight t := by
  by_cases ht : Blank t
  · rw [trimRight_append_blank ht, trimRight_eq_nil_iff.mpr ht, List.append_nil]
    exact hs
  · exact trimRight_append ht

/-- A tight text stays tight with anything in front of it. -/
theorem Tight.append {s t : Text} (ht : Tight t) (hne : t ≠ []) : Tight (s ++ t) := by
  have hblank : ¬ Blank t := by
    intro hb
    rw [← trimRight_eq_nil_iff, show trimRight t = t from ht] at hb
    exact hne hb
  rw [Tight, trimRight_append hblank, ht]

/-- A tight text that is not blank ends in a letter. -/
theorem Tight.exists_concat {s : Text} (h : Tight s) (hs : ¬ Blank s) :
    ∃ t c, s = t ++ [c] ∧ isBlank c = false := by
  have hne : trimRight s ≠ [] := fun hnil => hs (trimRight_eq_nil_iff.mp hnil)
  have hlast := List.rdropWhile_last_not isBlank s hne
  obtain ⟨t, c, ht⟩ := (List.eq_nil_or_concat (trimRight s)).resolve_left hne
  rw [List.concat_eq_append] at ht
  have hget : (trimRight s).getLast hne = c := by simp [ht]
  refine ⟨t, c, (show trimRight s = s from h).symm.trans ht, ?_⟩
  rw [Bool.not_eq_true] at hlast
  rwa [← hget]

/-- A text in two parts, the second of them white space, is cut where trimming
cuts it. -/
theorem eq_trimRight {s t b : Text} (ht : Tight t) (hb : Blank b) (h : s = t ++ b) :
    t = trimRight s ∧ b = trailing s := by
  have htrim : trimRight s = t := by rw [h, trimRight_append_blank hb, ht]
  refine ⟨htrim.symm, ?_⟩
  have hcut := trimRight_append_trailing s
  rw [htrim] at hcut
  exact (List.append_cancel_left (hcut.trans h)).symm

/-- Trimming keeps a letter at the front. -/
theorem head?_trimRight {c : Char} (hc : isBlank c = false) {s : Text} (hs : s.head? = some c) :
    (trimRight s).head? = some c := by
  obtain ⟨t, rfl⟩ := List.head?_eq_some_iff.mp hs
  rw [show c :: t = [c] ++ t from rfl]
  by_cases ht : Blank t
  · have hone : trimRight [c] = [c] := tight_concat hc []
    rw [trimRight_append_blank ht, hone, List.head?_cons]
  · rw [trimRight_append ht]
    rfl

/-- The white space at the end is that of the last part, unless it is all white space. -/
theorem trailing_append {s t : Text} (ht : ¬ Blank t) : trailing (s ++ t) = trailing t := by
  have hcut := trimRight_append_trailing (s ++ t)
  rw [trimRight_append ht, List.append_assoc] at hcut
  have hright := List.append_cancel_left hcut
  exact List.append_cancel_left (hright.trans (trimRight_append_trailing t).symm)

/-- A tight text has nothing to trim. -/
theorem Tight.trailing_eq_nil {s : Text} (hs : Tight s) : trailing s = [] :=
  (eq_trimRight hs blank_nil (List.append_nil s).symm).2.symm

end TemplateTidy.Text
