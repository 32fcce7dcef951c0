import Mathlib
import TemplateTidy.Proofs.Markup.Flow

/-!
# The formatter changes white space only

The *solids* of a text are what is left of it without white space. Printed cells
have the solids of their source, because gaps and pads are white space; and the
source is the markup, with a bracket if the last tag was left unfinished.

The formatter fails on one account only: an indentation that is longer than a
machine word can count, or a width that is no machine word. Markup that is all
white space needs no indentation.

Main result: `formatMarkup_keeps_solids`.
-/

namespace TemplateTidy

/-! ## Solids -/

namespace Text

/-- The text without its white space. -/
def solids (s : Text) : Text :=
  s.filter (!isBlank ·)

@[simp] theorem solids_append (s t : Text) : solids (s ++ t) = solids s ++ solids t :=
  List.filter_append ..

@[simp] theorem solids_eq_nil {s : Text} : solids s = [] ↔ s.Blank := by
  rw [solids, Blank, List.filter_eq_nil_iff, List.all_eq_true]
  simp only [Bool.not_eq_true', Bool.not_eq_false]

end Text

/-- Cells are printed with the solids of their source. -/
theorem Cell.solids_printed {cut : Text → Prop} {cells : List Cell} (h : AllSound cut cells) :
    (printed cells).solids = (source cells).solids := by
  have hblank : ∀ x ∈ cells, x.gap.solids = [] ∧ x.pad.solids = [] := by
    intro x hx
    obtain ⟨before, after, hsplit⟩ := List.append_of_mem hx
    have hsound := h before x after hsplit
    exact ⟨Text.solids_eq_nil.mpr hsound.gap_blank, Text.solids_eq_nil.mpr hsound.pad_blank⟩
  clear h
  induction cells with
  | nil => rfl
  | cons x cells ih =>
    obtain ⟨⟨hgap, hpad⟩, hrest⟩ := List.forall_mem_cons.mp hblank
    simp only [printed_cons, source_cons, Text.solids_append, hgap, hpad, ih hrest]

/-! ## The formatter -/

namespace MarkupOptions

/-- The indentation can be made: its width is a machine word, and a machine word counts
its characters. -/
def IndentFits (o : MarkupOptions) : Prop :=
  -wordLimit ≤ o.indentSize ∧ o.indentSize < wordLimit ∧
    o.indentSize * o.indentChar.length < wordLimit

/-- There is no fault exactly if the indentation can be made. -/
theorem indentFault?_eq_none {o : MarkupOptions} : o.indentFault? = none ↔ o.IndentFits := by
  unfold indentFault? IndentFits
  constructor
  · intro h
    split at h
    · cases h
    · split at h
      · cases h
      · omega
  · intro h
    rw [if_neg (by omega), if_neg (by omega)]

end MarkupOptions

/-- The formatter gives a result for blank markup, and for all markup if the indentation
can be made. -/
theorem exists_formatMarkup_iff (o : MarkupOptions) (s : Text) :
    (∃ out, formatMarkup o s = .ok out) ↔ s.Blank ∨ o.IndentFits := by
  rw [← MarkupOptions.indentFault?_eq_none]
  unfold formatMarkup
  split
  · rename_i hblank
    exact ⟨fun _ => .inl hblank, fun _ => ⟨[], rfl⟩⟩
  · rename_i hblank
    have hs : ¬ s.Blank := hblank
    cases o.indentFault? with
    | none => simp
    | some fault => simp [hs]

/-- **The formatter changes white space only.** Under an indentation of white space whose
width lies below the limit of machine words, it gives a result exactly if the markup is
blank or the indentation can be made. The result has the solids of the markup, or one more
bracket at the end; and the latter only if the last item is a start tag without one. -/
theorem formatMarkup_keeps_solids {o : MarkupOptions} (ho : o.IndentsBlank)
    (hsize : o.indentSize < 2 ^ 63) (s : Text) :
    ((∃ out, formatMarkup o s = .ok out) ↔
        s.Blank ∨ (-2 ^ 63 ≤ o.indentSize ∧ o.indentSize * o.indentChar.length < 2 ^ 63)) ∧
      ∀ out, formatMarkup o s = .ok out →
        out.solids = s.solids ∨
        (out.solids = s.solids ++ ['>'] ∧ ∃ tag,
          (Item.scan o s).getLast? = some (.startTag tag) ∧ tag.raw.getLast? ≠ some '>') := by
  constructor
  · have hlimit : MarkupOptions.wordLimit = 2 ^ 63 := by decide
    rw [exists_formatMarkup_iff, MarkupOptions.IndentFits, hlimit]
    simp only [hsize, true_and]
  · intro out hout
    rcases formatMarkup_spec ho hout with ⟨hblank, rfl⟩ | ⟨cells, rest, feed, hfeed, rfl, htypeset⟩
    · exact .inl (Text.solids_eq_nil.mpr hblank).symm
    · -- what is printed has the solids of the chunks, and the chunks are the markup
      have hchunks := Item.textOf_chunksOf_eq o (Item.follows_scan o (s := s) (.inl rfl))
      rw [htypeset.sets.textOf_eq, Item.rawOf_scan] at hchunks
      have hsolids : (Cell.printed cells ++ feed).solids =
          s.solids ++ (Item.suppliedTo o (Item.scan o s)).solids := by
        rw [Text.solids_append, Text.solids_eq_nil.mpr hfeed, List.append_nil,
          Cell.solids_printed htypeset.sound, ← Text.solids_append, ← hchunks, Text.solids_append,
          Text.solids_eq_nil.mpr htypeset.sets.blank_rest, List.append_nil]
      rw [hsolids]
      rcases Item.suppliedTo_cases o (Item.scan o s) with hnone | ⟨hbracket, htag⟩
      · left
        rw [hnone]
        exact List.append_nil _
      · right
        rw [hbracket]
        exact ⟨rfl, htag⟩

/-- An unfinished tag at the end: a bracket is supplied, and all else is white space. -/
theorem formatMarkup_keeps_solids_unfinished :
    let s : Text := "<p >x</p> <b".toList
    formatMarkup {} s = .ok "<p>x</p>\n<b>".toList ∧ ∃ tag,
      (Item.scan {} s).getLast? = some (.startTag tag) ∧ tag.raw.getLast? ≠ some '>' := by
  intro s
  have hout : formatMarkup {} s = .ok "<p>x</p>\n<b>".toList := by decide +kernel
  have hblank : ({} : MarkupOptions).IndentsBlank := by
    unfold MarkupOptions.IndentsBlank
    decide
  obtain ⟨-, hsolids⟩ := formatMarkup_keeps_solids hblank (by decide) s
  refine ⟨hout, ?_⟩
  rcases hsolids _ hout with hsame | ⟨-, htag⟩
  · exact absurd hsame (by decide)
  · exact htag

/-- Two indentations of white space whose width lies below the limit: the width is no
machine word, or the indentation is too long for one. -/
theorem formatMarkup_fails_beyond_words :
    let o : MarkupOptions := { indentSize := -2 ^ 63 - 1 }
    let o' : MarkupOptions := { indentChar := "  ".toList, indentSize := 2 ^ 62 }
    (o.IndentsBlank ∧ o.indentSize < 2 ^ 63 ∧ ∀ out, formatMarkup o "<p>x</p>".toList ≠ .ok out) ∧
      (o'.IndentsBlank ∧ o'.indentSize < 2 ^ 63 ∧
        ∀ out, formatMarkup o' "<p>x</p>".toList ≠ .ok out) := by
  intro o o'
  have hfault : formatMarkup o "<p>x</p>".toList = .error .widthOutOfRange := by decide +kernel
  have hfault' : formatMarkup o' "<p>x</p>".toList = .error .tooLong := by decide +kernel
  unfold MarkupOptions.IndentsBlank
  refine ⟨⟨by decide, by decide, fun out h => ?_⟩, by decide, by decide, fun out h => ?_⟩
  · rw [hfault] at h
    cases h
  · rw [hfault'] at h
    cases h

end TemplateTidy
