import TemplateTidy.Markup.Printer
import TemplateTidy.Proofs.Text.Trim

/-!
# What the printer prints

Seen from outside, a printer is a text: the finished lines and the line that is
being printed. Its *solid* part reaches to the last character that is no white
space, its *gap* is the white space behind it.

Placing something only ever changes the gap. So whatever is printed ends up
behind the solid part, with some white space between (`Prints`). And where the
source has white space before it, that white space is not empty: the printer
*owes* a gap from the moment it notes one.

Main results: `prints_inline`, `prints_block`, `join_finish`.
-/

namespace TemplateTidy

namespace MarkupOptions

/-- Indentation is white space. -/
def IndentsBlank (o : MarkupOptions) : Prop :=
  o.indentChar.Blank

instance (o : MarkupOptions) : Decidable o.IndentsBlank :=
  inferInstanceAs (Decidable o.indentChar.Blank)

/-- Repeated white space is white space. -/
theorem blank_times {s : Text} (hs : s.Blank) (n : Nat) : (Text.times n s).Blank := by
  unfold Text.times
  split
  · exact Text.blank_nil
  · refine Text.blank_flatten fun t ht => ?_
    rwa [List.eq_of_mem_replicate ht]

/-- At any depth the indentation is white space, if a step of it is. -/
theorem IndentsBlank.indent {o : MarkupOptions} (ho : o.IndentsBlank) (depth : Int) :
    (o.indent depth).Blank :=
  blank_times (blank_times ho _) _

end MarkupOptions

namespace Printer

/-! ## The printed text -/

/-- The finished lines, each with its line feed. -/
def finished (lines : List Text) : Text :=
  lines.reverse.flatMap (· ++ ['\n'])

@[simp] theorem finished_nil : finished [] = [] := rfl

@[simp] theorem finished_cons (l : Text) (lines : List Text) :
    finished (l :: lines) = finished lines ++ l ++ ['\n'] := by
  simp [finished]

/-- All that has been printed. -/
def whole (p : Printer) : Text :=
  finished p.lines ++ p.line.reverse

/-- What has been printed, without the white space at the end. -/
def solid (p : Printer) : Text :=
  Text.trimRight p.whole

/-- The white space at the end of what has been printed. -/
def gap (p : Printer) : Text :=
  Text.trailing p.whole

/-- What has been printed is its solid part and the white space behind that. -/
theorem solid_append_gap (p : Printer) : p.solid ++ p.gap = p.whole :=
  Text.trimRight_append_trailing p.whole

theorem blank_gap (p : Printer) : p.gap.Blank :=
  Text.blank_trailing p.whole

/-- The finished lines have no white space at the end. -/
def Neat (p : Printer) : Prop :=
  ∀ l ∈ p.lines, Text.Tight l

/-- There is white space before whatever comes next. -/
def Owes (p : Printer) : Prop :=
  p.space = true ∨ p.gap ≠ []

/-- A line without content is white space. -/
theorem blank_line {p : Printer} (h : p.hasContent = false) : p.line.Blank := by
  simpa [hasContent, Text.Blank, Text.allBlank] using h

/-- A line with content has a letter, also when it is read from its start. -/
theorem not_blank_line {p : Printer} (h : p.hasContent = true) : ¬ Text.Blank p.line.reverse := by
  rw [Text.blank_reverse]
  simpa [hasContent, Text.Blank, Text.allBlank] using h

/-- After a line feed there is a gap. -/
theorem gap_ne_nil_of_blank {p : Printer} (hline : p.hasContent = false) (hlines : p.lines ≠ []) :
    p.gap ≠ [] := by
  obtain ⟨l, lines, hl⟩ := List.exists_cons_of_ne_nil hlines
  have hblank : Text.Blank ('\n' :: p.line.reverse) := by
    rw [Text.blank_cons, Text.blank_reverse]
    exact ⟨by decide, blank_line hline⟩
  have hwhole : p.whole = finished lines ++ l ++ '\n' :: p.line.reverse := by
    rw [whole, hl, finished_cons, List.append_assoc, List.singleton_append]
  intro hgap
  -- the whole would have to be tight, and is not
  have hsolid : p.solid = p.whole := by rw [← solid_append_gap, hgap, List.append_nil]
  rw [solid, hwhole, Text.trimRight_append_blank hblank] at hsolid
  have hlength := congrArg List.length hsolid
  have hle : (Text.trimRight (finished lines ++ l)).length ≤ (finished lines ++ l).length :=
    (List.rdropWhile_prefix isBlank _).length_le
  simp only [List.length_append, List.length_cons] at hlength hle
  omega

/-- A printer that stands at the beginning has printed nothing solid. -/
theorem solid_eq_nil_of_blank {p : Printer} (hline : p.hasContent = false) (hlines : p.lines = []) :
    p.solid = [] := by
  rw [solid, Text.trimRight_eq_nil_iff, whole, hlines, finished_nil, List.nil_append,
    Text.blank_reverse]
  exact blank_line hline

/-! ## Changes of the gap -/

/-- The printer differs in its gap only, and there still is a gap if there was
one. -/
structure Shifts (p q : Printer) : Prop where
  solid_eq : q.solid = p.solid
  gap_ne : p.solid ≠ [] → p.gap ≠ [] → q.gap ≠ []
  neat : p.Neat → q.Neat

theorem Shifts.refl (p : Printer) : Shifts p p :=
  ⟨rfl, fun _ h => h, id⟩

/-- Changes of the gap add up to a change of the gap. -/
theorem Shifts.trans {p q r : Printer} (hpq : Shifts p q) (hqr : Shifts q r) : Shifts p r where
  solid_eq := hqr.solid_eq.trans hpq.solid_eq
  gap_ne hsolid hgap := hqr.gap_ne (hpq.solid_eq ▸ hsolid) (hpq.gap_ne hsolid hgap)
  neat h := hqr.neat (hpq.neat h)

/-- A printer with the same lines prints the same. -/
theorem Shifts.of_eq {p q : Printer} (hlines : q.lines = p.lines) (hline : q.line = p.line) :
    Shifts p q := by
  have hwhole : q.whole = p.whole := by rw [whole, whole, hlines, hline]
  refine ⟨by rw [solid, solid, hwhole], ?_, ?_⟩
  · intro _ hgap
    rwa [gap, hwhole]
  · intro hneat
    rwa [Neat, hlines]

/-- Empty lines are line feeds and nothing else. -/
theorem finished_replicate (n : Nat) (lines : List Text) :
    finished (List.replicate n [] ++ lines) = finished lines ++ List.replicate n '\n' := by
  induction n with
  | zero => simp
  | succ n ih =>
    rw [List.replicate_succ, List.cons_append, finished_cons, ih, List.append_nil,
      List.append_assoc, ← List.replicate_succ']

/-- The finished lines after the present one is finished too. -/
def linesNow (p : Printer) : List Text :=
  if p.hasContent then (Text.trimLeft p.line).reverse :: p.lines else p.lines

/-- The lines after a line break: those there are now, and the empty lines that are still missing.
At the beginning there are none. -/
theorem lines_newline (p : Printer) (blank : Nat) :
    (p.newline blank).lines =
      if p.linesNow.isEmpty then []
      else List.replicate (blank - (p.linesNow.takeWhile List.isEmpty).length) [] ++
        p.linesNow := rfl

/-- A line break finishes the present line and adds line feeds. -/
theorem whole_newline (p : Printer) (blank : Nat) :
    ∃ n, (p.newline blank).whole = finished p.linesNow ++ List.replicate n '\n' := by
  by_cases hempty : p.linesNow.isEmpty = true
  · refine ⟨0, ?_⟩
    simp [whole, newline, linesNow] at hempty ⊢
    simp [hempty]
  · refine ⟨blank - (p.linesNow.takeWhile List.isEmpty).length, ?_⟩
    have hline : (p.newline blank).line = [] := rfl
    rw [← finished_replicate, whole, lines_newline, if_neg hempty, hline, List.reverse_nil,
      List.append_nil]

/-- A line with content is finished without the white space at its end. -/
theorem linesNow_of_content {p : Printer} (h : p.hasContent = true) :
    p.linesNow = Text.trimRight p.line.reverse :: p.lines := by
  rw [linesNow, if_pos h, Text.trimRight, List.reverse_reverse]

/-- A line without content is dropped. -/
theorem linesNow_of_blank {p : Printer} (h : p.hasContent = false) : p.linesNow = p.lines := by
  rw [linesNow, h, if_neg Bool.false_ne_true]

/-- A new line leaves a gap behind all that has been printed. -/
theorem newline_spec (p : Printer) (blank : Nat) :
    (p.newline blank).solid = p.solid ∧ (p.solid ≠ [] → (p.newline blank).gap ≠ []) := by
  obtain ⟨n, hwhole⟩ := whole_newline p blank
  have hfeeds : Text.Blank (List.replicate n '\n') := Text.blank_replicate (by decide) n
  cases hcontent : p.hasContent with
  | true =>
    -- the line that is finished loses the white space at its end
    have hline := not_blank_line hcontent
    have hsolid : p.solid = finished p.lines ++ Text.trimRight p.line.reverse := by
      rw [solid, whole, Text.trimRight_append hline]
    have htight : Text.Tight p.solid := Text.tight_trimRight _
    rw [linesNow_of_content hcontent, finished_cons, ← hsolid, List.append_assoc,
      List.singleton_append] at hwhole
    have hblank : Text.Blank ('\n' :: List.replicate n '\n') :=
      Text.blank_cons.mpr ⟨by decide, hfeeds⟩
    obtain ⟨hsolid', hgap'⟩ := Text.eq_trimRight htight hblank hwhole
    refine ⟨hsolid'.symm, fun _ => ?_⟩
    rw [gap, ← hgap']
    exact List.cons_ne_nil _ _
  | false =>
    rw [linesNow_of_blank hcontent] at hwhole
    have hline : Text.Blank p.line.reverse := Text.blank_reverse.mpr (blank_line hcontent)
    refine ⟨?_, fun hne => ?_⟩
    · rw [solid, solid, hwhole, whole, Text.trimRight_append_blank hfeeds,
        Text.trimRight_append_blank hline]
    · -- something has been printed, so there is a finished line
      refine gap_ne_nil_of_blank rfl ?_
      have hlines : p.lines ≠ [] := fun h => hne (solid_eq_nil_of_blank hcontent h)
      rw [lines_newline, linesNow_of_blank hcontent, if_neg (by simpa using hlines)]
      simp [hlines]

/-- A line break keeps the finished lines free of white space at their ends. -/
theorem neat_newline {p : Printer} (h : p.Neat) (blank : Nat) : (p.newline blank).Neat := by
  have hnow : ∀ l ∈ p.linesNow, Text.Tight l := by
    cases hcontent : p.hasContent with
    | true =>
      rw [linesNow_of_content hcontent]
      exact List.forall_mem_cons.mpr ⟨Text.tight_trimRight _, h⟩
    | false =>
      rw [linesNow_of_blank hcontent]
      exact h
  intro l hl
  rw [lines_newline] at hl
  split at hl
  · cases hl
  · -- empty lines are neat, and so are those that were there
    rcases List.mem_append.mp hl with hl | hl
    · rw [List.eq_of_mem_replicate hl]
      exact rfl
    · exact hnow l hl

/-- A line break changes the gap only. -/
theorem shifts_newline (p : Printer) (blank : Nat) : Shifts p (p.newline blank) where
  solid_eq := (newline_spec p blank).1
  gap_ne hsolid _ := (newline_spec p blank).2 hsolid
  neat h := neat_newline h blank

theorem shifts_settled (p : Printer) : Shifts p p.settled :=
  Shifts.of_eq rfl rfl

/-! ## Placing -/

/-- What is placed is asked to be spaced, or has a gap before it, where the
source has white space. -/
structure Places (p q : Printer) (space : Bool) : Prop where
  shifts : Shifts p q
  owes : p.Owes → p.solid ≠ [] → space = true ∨ q.gap ≠ []

/-- **Placing something changes the gap only**, and leaves a gap or asks for a space where the
source has white space. -/
theorem places_place (o : MarkupOptions) (p : Printer) (block atom : Bool) :
    Places p (p.place o block atom).1 (p.place o block atom).2 := by
  have hnewline : ∀ blank, Places p (p.settled.newline blank) false := by
    intro blank
    refine ⟨(shifts_settled p).trans (shifts_newline _ blank), fun _ hsolid => .inr ?_⟩
    exact (newline_spec p.settled blank).2 hsolid
  unfold place
  simp only
  -- where the line has been ended, a gap is there already
  split
  · -- the line is blank, so there is a gap unless nothing has been printed
    rename_i hcontent
    have hblank : p.hasContent = false := by simpa using hcontent
    split
    · exact hnewline _
    · refine ⟨shifts_settled p, fun _ hsolid => .inr ?_⟩
      have hlines : p.lines ≠ [] := fun h => hsolid (solid_eq_nil_of_blank hblank h)
      exact gap_ne_nil_of_blank (p := p.settled) hblank hlines
  · split
    · exact hnewline _
    · refine ⟨shifts_settled p, fun howes _ => ?_⟩
      rcases howes with hspace | hgap
      · exact .inl hspace
      · exact .inr hgap

/-- A block has no space before it on its line. -/
theorem places_placeBlock (o : MarkupOptions) (p : Printer) : Places p (p.placeBlock o) false := by
  have hspace : (p.place o true false).2 = false := by
    unfold place
    simp only [Bool.true_or, if_true]
    split <;> rfl
  have hplace := places_place o p true false
  rwa [hspace] at hplace

/-- A space at the end of the line changes the gap only. -/
theorem shifts_spaced (p : Printer) (space : Bool) : Shifts p (p.spaced space) := by
  cases space with
  | false => exact Shifts.refl p
  | true =>
    have hwhole : (p.spaced true).whole = p.whole ++ [' '] := by
      simp [spaced, whole]
    have hblank : Text.Blank (p.gap ++ [' ']) :=
      Text.blank_append.mpr ⟨p.blank_gap, by decide⟩
    rw [← solid_append_gap p, List.append_assoc] at hwhole
    obtain ⟨hsolid, hgap⟩ := Text.eq_trimRight (Text.tight_trimRight _) hblank hwhole
    refine ⟨hsolid.symm, fun _ _ => ?_, id⟩
    rw [gap, ← hgap]
    simp

/-- Behind a space there is a gap. -/
theorem gap_spaced {p : Printer} : (p.spaced true).gap ≠ [] := by
  have hwhole : (p.spaced true).whole = p.whole ++ [' '] := by
    simp [spaced, whole]
  intro hgap
  have hcut := solid_append_gap (p.spaced true)
  rw [(shifts_spaced p true).solid_eq, hgap, List.append_nil, hwhole, ← solid_append_gap p] at hcut
  have hlength := congrArg List.length hcut
  simp only [List.length_append, List.length_cons] at hlength
  omega

/-! ## Printing -/

/-- Something is printed behind the solid part, with white space between if there
is any in the source. -/
structure Prints (p q : Printer) (s : Text) : Prop where
  whole_eq : ∃ w, Text.Blank w ∧ q.whole = p.solid ++ w ++ s ∧ (p.Owes → p.solid ≠ [] → w ≠ [])
  neat : p.Neat → q.Neat

/-- What has been printed is told by the lines, whatever else the printer notes. -/
theorem Prints.of_eq {p q r : Printer} {s : Text} (h : Prints p q s) (hlines : r.lines = q.lines)
    (hline : r.line = q.line) : Prints p r s where
  whole_eq := by
    have hwhole : r.whole = q.whole := by rw [whole, whole, hlines, hline]
    rw [hwhole]
    exact h.whole_eq
  neat hp := by
    rw [Neat, hlines]
    exact h.neat hp

/-- **What is written stands behind the solid part**, with the white space between that was
there. -/
theorem whole_write {o : MarkupOptions} (ho : o.IndentsBlank) (p : Printer) (s : Text) :
    ∃ w, Text.Blank w ∧ (p.write o s).whole = p.solid ++ w ++ s ∧
      (p.gap ≠ [] → p.solid ≠ [] → w ≠ []) := by
  cases hcontent : p.hasContent with
  | true =>
    refine ⟨p.gap, p.blank_gap, ?_, fun h _ => h⟩
    rw [solid_append_gap]
    simp [whole, write, hcontent]
  | false =>
    -- the blank line gives way to the indentation
    have hindent := ho.indent p.depth
    have hline : Text.Blank p.line.reverse := Text.blank_reverse.mpr (blank_line hcontent)
    have hsolid : p.solid = Text.trimRight (finished p.lines) := by
      rw [solid, whole, Text.trimRight_append_blank hline]
    have hwhole : (p.write o s).whole = finished p.lines ++ o.indent p.depth ++ s := by
      simp [whole, write, hcontent]
    refine ⟨Text.trailing (finished p.lines) ++ o.indent p.depth,
      Text.blank_append.mpr ⟨Text.blank_trailing _, hindent⟩, ?_, fun _ hne => ?_⟩
    · rw [hwhole, hsolid, ← List.append_assoc, Text.trimRight_append_trailing]
    · -- a blank line stands behind a line feed, or at the start of the text
      have hlines : p.lines ≠ [] := fun h => hne (solid_eq_nil_of_blank hcontent h)
      have hfeed : (Printer.mk p.lines [] 0 0 false false).gap ≠ [] :=
        gap_ne_nil_of_blank rfl hlines
      have hgap : (Printer.mk p.lines [] 0 0 false false).gap =
          Text.trailing (finished p.lines) := by
        rw [gap, whole, List.reverse_nil, List.append_nil]
      rw [hgap] at hfeed
      simp [hfeed]

/-- Something that has been placed is printed when it is written. -/
theorem prints_write {o : MarkupOptions} (ho : o.IndentsBlank) {p q : Printer} {space : Bool}
    (h : Places p q space) (s : Text) : Prints p ((q.spaced space).write o s) s where
  whole_eq := by
    obtain ⟨w, hw, hwhole, hne⟩ := whole_write ho (q.spaced space) s
    have hspaced := shifts_spaced q space
    have hsolid : (q.spaced space).solid = p.solid := hspaced.solid_eq.trans h.shifts.solid_eq
    rw [hsolid] at hwhole hne
    refine ⟨w, hw, hwhole, fun howes hp => hne ?_ hp⟩
    -- the white space is put in now, or it was put in by placing
    rcases h.owes howes hp with rfl | hgap
    · exact gap_spaced
    · exact hspaced.gap_ne (h.shifts.solid_eq ▸ hp) hgap
  neat hp := (shifts_spaced q space).neat (h.shifts.neat hp)

/-- What has been placed may go to the next line instead. -/
theorem places_wrap {p q : Printer} {space : Bool} (h : Places p q space) (blank : Nat) :
    Places p (q.newline blank) false where
  shifts := h.shifts.trans (shifts_newline q blank)
  owes _ hsolid := .inr ((newline_spec q blank).2 (h.shifts.solid_eq ▸ hsolid))

/-- What flows with the text is printed behind the solid part. -/
theorem prints_inline {o : MarkupOptions} (ho : o.IndentsBlank) (p : Printer) (s : Text)
    (atom wrappable : Bool) : Prints p (p.inline o s atom wrappable) s := by
  have hplace := places_place o p false atom
  unfold inline
  simp only
  split
  · exact prints_write ho (places_wrap hplace 0) s
  · exact prints_write ho hplace s

/-- So is what gets a line of its own. -/
theorem prints_block {o : MarkupOptions} (ho : o.IndentsBlank) (p : Printer) (s : Text) :
    Prints p (p.block o s) s :=
  (prints_write ho (places_placeBlock o p) s).of_eq rfl rfl

/-! ## The lines at the end -/

/-- Joined parts as the parts with the separator behind each, and the last one. -/
theorem join_concat (sep : Text) (parts : List Text) (last : Text) :
    Text.join sep (parts ++ [last]) = parts.flatMap (· ++ sep) ++ last := by
  induction parts with
  | nil => rfl
  | cons t parts ih =>
    cases hparts : parts ++ [last] with
    | nil => simp at hparts
    | cons u us =>
      have hstep : Text.join sep (t :: u :: us) = t ++ sep ++ Text.join sep (u :: us) := rfl
      rw [List.cons_append, hparts, hstep, ← hparts, ih, List.flatMap_cons, List.append_assoc,
        List.append_assoc, List.append_assoc]

/-- Lines without the empty ones at the end, joined, are the finished lines without the white space
at their end. -/
theorem join_dropWhile {lines : List Text} (h : ∀ l ∈ lines, Text.Tight l) :
    Text.join ['\n'] (lines.dropWhile List.isEmpty).reverse = Text.trimRight (finished lines) := by
  induction lines with
  | nil => rfl
  | cons l lines ih =>
    have hfeed : Text.Blank ['\n'] := by decide
    rw [finished_cons, Text.trimRight_append_blank hfeed]
    cases hl : l.isEmpty with
    | true =>
      -- an empty line at the end is left out on either side
      rw [List.dropWhile_cons_of_pos hl, ih fun m hm => h m (List.mem_cons_of_mem _ hm),
        List.isEmpty_iff.mp hl, List.append_nil]
    | false =>
      have hne : l ≠ [] := by simpa using hl
      have htight : Text.Tight (finished lines ++ l) := (h l (List.mem_cons_self ..)).append hne
      rw [List.dropWhile_cons_of_neg (by simp [hl]), List.reverse_cons, join_concat, htight]
      rfl

/-- **The lines at the end are the solid part of what has been printed.** -/
theorem join_finish {p : Printer} (h : p.Neat) : Text.join ['\n'] p.finish = p.solid := by
  rw [finish, join_dropWhile (neat_newline h 0), ← (newline_spec p 0).1, solid, whole]
  simp [newline]

end Printer

end TemplateTidy
