import TemplateTidy.Proofs.Markup.Course

/-!
# Empty lines

How many empty lines in a row the output has is bounded by the options: by what is kept of
the source, and by the one empty line before certain tags. Several requests for empty lines
may follow each other at one place. They do not add up, since a new line counts the empty
lines that are there.

Main results: `Printer.emptyWithin_newline`, `layoutLines_empty_within`.
-/

namespace TemplateTidy

/-- Lines, the last one first, of which the first is not empty, with so many empty ones in a
row at most. -/
structure EmptyWithin (limit : ℕ∞) (lines : List Text) : Prop where
  first_ne : ∀ l, lines.getLast? = some l → l ≠ []
  run_le : ∀ n, List.replicate n [] <:+: lines → (n : ℕ∞) ≤ limit

namespace EmptyWithin

variable {limit : ℕ∞} {lines : List Text} {l : Text}

/-- Where there are no lines there are no empty ones. -/
theorem nil (limit : ℕ∞) : EmptyWithin limit [] where
  first_ne l h := nomatch h
  run_le n h := by
    have hn : n = 0 := by simpa using h
    rw [hn]
    exact zero_le

/-- A line that is not empty begins a new row. -/
theorem cons (h : EmptyWithin limit lines) (hl : l ≠ []) : EmptyWithin limit (l :: lines) where
  first_ne l' hlast := by
    cases lines with
    | nil =>
      rw [List.getLast?_singleton, Option.some_inj] at hlast
      exact hlast ▸ hl
    | cons a lines => exact h.first_ne l' (by rwa [List.getLast?_cons_cons] at hlast)
  run_le n hrun := by
    cases n with
    | zero => exact zero_le
    | succ n =>
      rcases List.infix_cons_iff.mp hrun with hprefix | hinfix
      · rw [List.replicate_succ, List.cons_prefix_cons] at hprefix
        exact absurd hprefix.1.symm hl
      · exact h.run_le (n + 1) hinfix

/-- Empty lines at the front are counted by what is taken while lines are empty. -/
theorem le_of_replicate_prefix {n : Nat} (h : List.replicate n [] <+: lines) :
    n ≤ (lines.takeWhile List.isEmpty).length := by
  obtain ⟨rest, rfl⟩ := h
  rw [List.takeWhile_append_of_pos (by simp)]
  simp

/-- Empty lines are added to those that are there. -/
theorem replicate_append (h : EmptyWithin limit lines) (hne : lines ≠ []) {k : Nat}
    (hk : k ≠ 0 → ((k + (lines.takeWhile List.isEmpty).length : Nat) : ℕ∞) ≤ limit) :
    EmptyWithin limit (List.replicate k [] ++ lines) where
  first_ne l hlast := h.first_ne l (by rwa [List.getLast?_append_of_ne_nil _ hne] at hlast)
  run_le n hrun := by
    induction k with
    | zero => exact h.run_le n hrun
    | succ k ih =>
      have hcount : ((k + (lines.takeWhile List.isEmpty).length : Nat) : ℕ∞) ≤ limit :=
        le_trans (by gcongr; omega) (hk (by simp))
      rw [List.replicate_succ, List.cons_append] at hrun
      rcases List.infix_cons_iff.mp hrun with hprefix | hinfix
      · -- a row that begins with the first line goes on into the lines that were there
        refine le_trans ?_ (hk (by simp))
        rw [← List.cons_append, ← List.replicate_succ] at hprefix
        have hle := le_of_replicate_prefix hprefix
        rw [List.takeWhile_append_of_pos (by simp), List.length_append,
          List.length_replicate] at hle
        exact_mod_cast hle
      · exact ih (fun _ => hcount) hinfix

/-- The lines in the order in which they are read, without empty ones at the end. -/
theorem reverse_dropWhile (h : EmptyWithin limit lines) :
    (∀ l, (lines.dropWhile List.isEmpty).reverse.head? = some l → l ≠ []) ∧
      (∀ l, (lines.dropWhile List.isEmpty).reverse.getLast? = some l → l ≠ []) ∧
      ∀ n, List.replicate n [] <:+: (lines.dropWhile List.isEmpty).reverse → (n : ℕ∞) ≤ limit := by
  have hsuffix := List.dropWhile_suffix (l := lines) List.isEmpty
  refine ⟨fun l hhead => ?_, fun l hlast => ?_, fun n hrun => ?_⟩
  · rw [List.head?_reverse] at hhead
    obtain ⟨rest, hrest⟩ := hsuffix
    refine h.first_ne l ?_
    rw [← hrest, List.getLast?_append, hhead]
    rfl
  · rw [List.getLast?_reverse] at hlast
    have hnot := List.head?_dropWhile_not List.isEmpty lines
    rw [hlast] at hnot
    rintro rfl
    cases hnot
  · rw [← List.reverse_infix, List.reverse_replicate, List.reverse_reverse] at hrun
    exact h.run_le n (hrun.trans hsuffix.isInfix)

end EmptyWithin

namespace Printer

variable {o : MarkupOptions} {p q : Printer} {limit : ℕ∞}

/-- The present line is not empty when it is finished. -/
theorem emptyWithin_linesNow (h : EmptyWithin limit p.lines) : EmptyWithin limit p.linesNow := by
  cases hcontent : p.hasContent with
  | true =>
    rw [linesNow_of_content hcontent]
    refine h.cons fun hnil => not_blank_line hcontent ?_
    exact Text.trimRight_eq_nil_iff.mp hnil
  | false => rwa [linesNow_of_blank hcontent]

/-- **A new line adds no more empty ones than are missing.** -/
theorem emptyWithin_newline (h : EmptyWithin limit p.lines) {blank : Nat}
    (hblank : (blank : ℕ∞) ≤ limit) : EmptyWithin limit (p.newline blank).lines := by
  have hnow := emptyWithin_linesNow h
  rw [lines_newline]
  split
  · exact .nil limit
  · rename_i hne
    -- where lines are missing, there are as many afterwards as were asked for
    refine hnow.replicate_append (by simpa using hne) fun hmissing => ?_
    refine le_trans ?_ hblank
    exact_mod_cast (by omega)

/-- **No act of the printer puts more empty lines in a row than are allowed.** -/
theorem Acts.emptyWithin (hact : Acts o p q)
    (h : EmptyWithin (max o.keptLimit o.extraLimit) p.lines) :
    EmptyWithin (max o.keptLimit o.extraLimit) q.lines := by
  cases hact with
  | line => exact h
  | newline blank hblank => exact emptyWithin_newline h hblank

end Printer

/-- **Empty lines are bounded as the options say.** Neither the first line of the output nor
the last one is empty, and no more lines in a row are empty than are kept of the source, or
one if certain tags are to have an empty line before them. -/
theorem layoutLines_empty_within (o : MarkupOptions) (s : Text) :
    (∀ l, (layoutLines o s).head? = some l → l ≠ []) ∧
      (∀ l, (layoutLines o s).getLast? = some l → l ≠ []) ∧
      ∀ before n after, layoutLines o s = before ++ List.replicate n [] ++ after →
        (n : ℕ∞) ≤ max o.keptLimit o.extraLimit := by
  have hrun : EmptyWithin (max o.keptLimit o.extraLimit)
      (Layout.run o (Item.scan o s)).printer.lines := by
    rw [← Layout.after_ofItems]
    exact Layout.after_keeps (P := fun p => EmptyWithin _ p.lines) (.nil _) (fun _ h => h)
      Printer.Acts.emptyWithin fun x hx => Layout.isDivided_of_mem_ofItems hx
  have hlast : EmptyWithin (max o.keptLimit o.extraLimit)
      ((Layout.run o (Item.scan o s)).printer.newline 0).lines :=
    Printer.emptyWithin_newline hrun zero_le
  obtain ⟨hfirst, hend, hrow⟩ := hlast.reverse_dropWhile
  exact ⟨hfirst, hend, fun before n after hsplit => hrow n ⟨before, after, hsplit.symm⟩⟩

/-- Of four empty lines in the source two are kept, and the empty line before the body is one
of them. -/
theorem layoutLines_empty_within_kept :
    let o : MarkupOptions := { preserveNewlines := true, maxPreserveNewlines := some 3 }
    let s : Text := "<p>a</p>\n\n\n\n\n<body>b</body>".toList
    let before : List Text := ["<p>a</p>".toList]
    let after : List Text := ["<body>b</body>".toList]
    layoutLines o s = before ++ List.replicate 2 [] ++ after ∧
      ((2 : Nat) : ℕ∞) ≤ max o.keptLimit o.extraLimit ∧
      "<p>a</p>".toList ≠ [] ∧ "<body>b</body>".toList ≠ [] := by
  intro o s before after
  have hlines : layoutLines o s = before ++ List.replicate 2 [] ++ after := by decide +kernel
  obtain ⟨hfirst, hlast, hrun⟩ := layoutLines_empty_within o s
  exact ⟨hlines, hrun before 2 after hlines, hfirst _ (by rw [hlines]; rfl),
    hlast _ (by rw [hlines]; rfl)⟩

end TemplateTidy
