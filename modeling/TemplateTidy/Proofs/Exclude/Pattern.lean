import TemplateTidy.Exclude.Spec
import TemplateTidy.Proofs.Text.Fields

/-!
# Patterns that can be read

A pattern can be read whatever its slashes and stars are, as long as it names something and
neither escapes a character nor holds a set of characters: a lone backslash and a range with its
ends in the wrong order are the only faults of what it names.

Of a list of patterns the first one that cannot be read decides how the reading fails.

Main results: `Pattern.read_of_isPlain`, `ExcludeSpec.ofValues_eq_error_iff`.
-/

namespace TemplateTidy

/-! ## Pieces -/

namespace GlobPiece

/-- The piece is no set of characters. -/
def IsSimple (p : GlobPiece) : Prop :=
  ∀ negated body, p ≠ .set negated body

end GlobPiece

/-- Only sets have bad ranges. -/
theorem Glob.badRange?_of_isSimple {ps : List GlobPiece} (h : ∀ p ∈ ps, p.IsSimple)
    (position : Nat) : badRange? position ps = none := by
  induction ps generalizing position with
  | nil => rfl
  | cons p ps ih =>
    obtain ⟨hp, hps⟩ := List.forall_mem_cons.mp h
    cases p with
    | set negated body => exact absurd rfl (hp negated body)
    | _ => exact ih hps _

namespace Pattern

/-- The text escapes nothing and holds no set of characters. -/
structure IsPlain (s : Text) : Prop where
  escape : '\\' ∉ s
  bracket : '[' ∉ s

/-- A part of a plain text is plain. -/
theorem IsPlain.of_subset {s t : Text} (h : IsPlain t) (hs : s ⊆ t) : IsPlain s where
  escape hmem := h.escape (hs hmem)
  bracket hmem := h.bracket (hs hmem)

theorem isPlain_anyDirectories : IsPlain anyDirectories where
  escape := by decide
  bracket := by decide

/-- The reading of pieces ends well, in pieces without sets. -/
def ReadsSimple (pieces : Except ComponentFault (List GlobPiece)) : Prop :=
  ∃ ps, pieces = .ok ps ∧ ∀ p ∈ ps, p.IsSimple

/-- One more simple piece in front. -/
theorem ReadsSimple.cons {pieces : Except ComponentFault (List GlobPiece)} {p : GlobPiece}
    (h : ReadsSimple pieces) (hp : p.IsSimple) : ReadsSimple (pieces.map (p :: ·)) := by
  obtain ⟨ps, rfl, hps⟩ := h
  exact ⟨p :: ps, rfl, List.forall_mem_cons.mpr ⟨hp, hps⟩⟩

/-- A plain component is read, in simple pieces. -/
theorem readsSimple_componentPieces {s : Text} (h : IsPlain s) :
    ReadsSimple (componentPieces s) := by
  fun_induction componentPieces s with
  | case1 => exact ⟨[], rfl, nofun⟩
  | case2 => exact absurd (List.mem_cons_self ..) h.escape
  | case3 c rest => exact absurd (List.mem_cons_self ..) h.escape
  | case4 rest ih => exact (ih (h.of_subset (List.subset_cons_self ..))).cons nofun
  | case5 rest ih => exact (ih (h.of_subset (List.subset_cons_self ..))).cons nofun
  | case6 rest => exact absurd (List.mem_cons_self ..) h.bracket
  | case7 rest => exact absurd (List.mem_cons_self ..) h.bracket
  | case8 c rest _ _ _ _ _ ih =>
    exact (ih (h.of_subset (List.subset_cons_self ..))).cons nofun

/-- **Plain segments are read**, in simple pieces. -/
theorem readsSimple_segmentPieces {segments : List Text} (h : ∀ s ∈ segments, IsPlain s)
    (directory first needsSlash : Bool) :
    ReadsSimple (segmentPieces directory first needsSlash segments) := by
  induction segments generalizing first needsSlash with
  | nil => exact ⟨[], rfl, nofun⟩
  | cons s rest ih =>
    obtain ⟨hs, hrest⟩ := List.forall_mem_cons.mp h
    rw [segmentPieces]
    split
    · split
      · exact (ih hrest false needsSlash).cons nofun
      · split
        · refine ⟨_, rfl, ?_⟩
          rw [List.forall_mem_singleton]
          split <;> exact nofun
        · exact (ih hrest false true).cons nofun
    · -- a component of its own, with the marks around it
      have hmark : ∀ {b : Bool} {p : GlobPiece}, p.IsSimple →
          ∀ q ∈ (if b then [p] else []), q.IsSimple := by
        intro b p hp
        split
        · exact List.forall_mem_singleton.mpr hp
        · exact nofun
      obtain ⟨later, hlater, hlaterSimple⟩ := ih hrest false true
      have hjoined : ∀ own : List GlobPiece, (∀ p ∈ own, p.IsSimple) → ReadsSimple (do
          let later ← segmentPieces directory false true rest
          return (if first then [.start] else []) ++ (if needsSlash then [.slash] else []) ++ own ++
            (if rest.isEmpty then [.boundary] else []) ++ later) := by
        intro own hown
        rw [hlater]
        refine ⟨_, rfl, ?_⟩
        simp only [List.forall_mem_append]
        exact ⟨⟨⟨⟨hmark nofun, hmark nofun⟩, hown⟩, hmark nofun⟩, hlaterSimple⟩
      -- a star alone is read on its own, so it is not looked for inside the component
      dsimp only
      by_cases hstar : s = ['*']
      · rw [if_pos hstar]
        exact hjoined [.component] (List.forall_mem_singleton.mpr nofun)
      · obtain ⟨own, hown, hownSimple⟩ := readsSimple_componentPieces hs
        rw [if_neg hstar, hown]
        exact hjoined own hownSimple

/-! ## Components -/

/-- Leaving out repeated segments adds none. -/
theorem subset_of_dropRepeated (segments : List Text) : dropRepeated segments ⊆ segments := by
  fun_induction dropRepeated segments with
  | case1 a b rest _ ih => exact List.Subset.trans ih (List.subset_cons_self ..)
  | case2 a b rest _ ih => exact List.cons_subset_cons a ih
  | case3 segments => exact List.Subset.refl segments

/-- The components as they are written, but for those at the front that are not said. -/
def tied (written : List Text) : List Text :=
  match written with
  | [] :: rest => rest
  | [s] | [s, []] => if s = anyDirectories then written else anyDirectories :: written
  | _ => written

/-- The segments of a pattern are the components tied to the root or to any directory, with those
below it if it names a directory. -/
theorem segments?_eq (written : List Text) :
    segments? written = if (tied written).isEmpty then none
      else some (dropRepeated (if (tied written).getLast? = some []
        then (tied written).dropLast ++ [anyDirectories] else tied written)) :=
  rfl

/-- Only the component for any directories is added. -/
theorem mem_of_mem_tied {written : List Text} {s : Text} (h : s ∈ tied written) :
    s ∈ written ∨ s = anyDirectories := by
  have hadded : ∀ {written : List Text} {t : Text},
      s ∈ (if t = anyDirectories then written else anyDirectories :: written) →
        s ∈ written ∨ s = anyDirectories := by
    intro written t h
    split at h
    · exact .inl h
    · exact (List.mem_cons.mp h).symm
  unfold tied at h
  split at h
  · exact .inl (List.mem_cons_of_mem _ h)
  · exact hadded h
  · exact hadded h
  · exact .inl h

/-- The components of a pattern are those that are written, and any directories. -/
theorem mem_of_mem_segments? {written segments : List Text} {s : Text}
    (h : segments? written = some segments) (hs : s ∈ segments) :
    s ∈ written ∨ s = anyDirectories := by
  rw [segments?_eq] at h
  split at h
  · cases h
  · rw [← Option.some.inj h] at hs
    have hmem := subset_of_dropRepeated _ hs
    split at hmem
    · rcases List.mem_append.mp hmem with hmem | hmem
      · exact mem_of_mem_tied (List.dropLast_subset _ hmem)
      · exact .inr (List.mem_singleton.mp hmem)
    · exact mem_of_mem_tied hmem

/-- A pattern has components if it is not empty. -/
theorem segments?_isSome {written : List Text} (hne : written ≠ []) (hnil : written ≠ [[]]) :
    ∃ segments, segments? written = some segments := by
  have htied : tied written ≠ [] := by
    unfold tied
    split
    · exact fun h => hnil (h ▸ rfl)
    · split <;> exact List.cons_ne_nil _ _
    · split <;> exact List.cons_ne_nil _ _
    · exact hne
  rw [segments?_eq, if_neg (by simpa using htied)]
  exact ⟨_, rfl⟩

/-- A glob can be built from plain segments, and is free of faults. -/
theorem globOf_of_isPlain {segments : List Text} (h : ∀ s ∈ segments, IsPlain s)
    (directory : Bool) : ∃ glob, globOf directory segments = .ok glob ∧ glob.fault? = none := by
  rw [globOf]
  split
  · refine ⟨_, rfl, ?_⟩
    split <;> rfl
  split
  · exact ⟨_, rfl, rfl⟩
  split
  · exact ⟨_, rfl, rfl⟩
  · obtain ⟨ps, hps, hsimple⟩ := readsSimple_segmentPieces h directory true false
    rw [hps]
    refine ⟨.pieces ps, rfl, ?_⟩
    rw [Glob.fault?, Glob.badRange?_of_isSimple hsimple]
    rfl

/-- **A plain pattern can be read**, unless it takes back nothing. -/
theorem read_of_isPlain {line : Text} (h : IsPlain line) (hne : line ≠ ['!']) :
    ∃ pattern, read line = .ok pattern := by
  unfold read
  split
  · exact ⟨none, rfl⟩
  rename_i hskip
  dsimp only
  -- what is read of the line, without the mark that takes files back
  generalize hnamed : (if !(['!'].isPrefixOf line) then line else line.drop 1) = named
  have hsubset : named ⊆ line := by
    rw [← hnamed]
    split
    · exact List.Subset.refl line
    · exact List.drop_subset 1 line
  have hnil : named ≠ [] := by
    rintro rfl
    split at hnamed
    · rw [hnamed] at hskip
      exact hskip rfl
    · rename_i hmark
      rw [Bool.not_eq_true, Bool.not_eq_false', List.isPrefixOf_iff_prefix] at hmark
      obtain ⟨rest, rfl⟩ := hmark
      exact hne (congrArg ('!' :: ·) hnamed)
  -- the parts between slashes are plain, and so the pattern is read
  obtain ⟨segments, hsegments⟩ :=
    segments?_isSome (Text.fields_ne_nil '/' named) fun h => hnil (Text.eq_nil_of_fields_eq h)
  have hplain : ∀ s ∈ segments, IsPlain s := by
    intro s hs
    rcases mem_of_mem_segments? hsegments hs with hmem | rfl
    · exact (h.of_subset hsubset).of_subset fun c hc => (Text.mem_and_ne_of_mem_fields hmem hc).1
    · exact isPlain_anyDirectories
  obtain ⟨glob, hglob, hfault⟩ :=
    globOf_of_isPlain hplain ((Text.fields '/' named).getLast? == some [])
  simp only [hsegments, hglob, hfault]
  exact ⟨_, rfl⟩

end Pattern

/-! ## Lists of patterns -/

/-- Why a pattern cannot be read, if it cannot. -/
def Pattern.fault? (line : Text) : Option PatternError :=
  match read line with
  | .error e => some e
  | .ok _ => none

/-- Reading lines fails exactly if a line has a fault, and with the first of them. -/
theorem Pattern.mapM_read_eq_error_iff {lines : List Text} {e : PatternError} :
    lines.mapM read = .error e ↔ lines.findSome? fault? = some e := by
  induction lines with
  | nil => exact ⟨nofun, nofun⟩
  | cons line lines ih =>
    rw [List.mapM_cons, List.findSome?_cons, fault?]
    cases read line with
    | error fault =>
      exact ⟨fun h => congrArg some (Except.error.inj h), fun h => congrArg _ (Option.some.inj h)⟩
    | ok pattern =>
      rw [← ih]
      cases lines.mapM read with
      | error fault => exact Iff.rfl
      | ok patterns => exact ⟨nofun, nofun⟩

namespace ExcludeSpec

/-- The patterns that are read from values. -/
def patternLines (values : List Json) : List Text :=
  ((values.filterMap fun
    | .str s => some s
    | _ => none).map Text.trim).filter (!·.isEmpty)

/-- Why patterns cannot be read, if they cannot: the first one that cannot be read decides. -/
def fault? (values : List Json) : Option PatternError :=
  (patternLines values).findSome? Pattern.fault?

/-- **The first pattern that cannot be read decides** how the reading fails. -/
theorem ofValues_eq_error_iff {values : List Json} {e : PatternError} :
    ofValues values = .error e ↔ fault? values = some e := by
  rw [fault?, ← Pattern.mapM_read_eq_error_iff]
  show ((patternLines values).mapM Pattern.read >>= fun patterns => pure (patterns.filterMap id)) =
    .error e ↔ _
  cases (patternLines values).mapM Pattern.read with
  | error fault =>
    exact ⟨fun h => congrArg _ (Except.error.inj h), fun h => congrArg _ (Except.error.inj h)⟩
  | ok patterns => exact ⟨nofun, nofun⟩

/-- Plain patterns have no fault, unless one is a lone exclamation mark. -/
theorem fault?_of_isPlain {values : List Json}
    (h : ∀ line ∈ patternLines values, Pattern.IsPlain line ∧ line ≠ ['!']) :
    fault? values = none := by
  rw [fault?, List.findSome?_eq_none_iff]
  intro line hline
  obtain ⟨pattern, hread⟩ := Pattern.read_of_isPlain (h line hline).1 (h line hline).2
  rw [Pattern.fault?, hread]

end ExcludeSpec

end TemplateTidy
