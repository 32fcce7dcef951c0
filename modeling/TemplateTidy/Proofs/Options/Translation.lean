import TemplateTidy.Markup.Options
import TemplateTidy.Proofs.Options.Record
import TemplateTidy.Proofs.Text.Lowering

/-!
# Options that are read twice

Whatever an editor's record holds, the options read from it are valid
(`MarkupOptions.IsValid`). Valid options can be spelled out as a record again
(`MarkupOptions.toRecord`), and what is read from that record are the options themselves.
So reading leads onto the valid options and leaves them in place.

Each kind of option is read back by one lemma. Names of elements are the ones that need an
argument: they have been trimmed and lowered, and neither has an effect for a second time.

Main result: `MarkupOptions.ofRecord_retracts`.
-/

namespace TemplateTidy

namespace Record

/-! ## Names of elements -/

/-- The name of an element as it is compared. -/
structure IsTagName (name : Text) : Prop where
  nonempty : name ≠ []
  trimmed : Text.trim name = name
  lowered : Text.lower name = name

instance (name : Text) : Decidable (IsTagName name) :=
  decidable_of_iff (name ≠ [] ∧ Text.trim name = name ∧ Text.lower name = name)
    ⟨fun h => ⟨h.1, h.2.1, h.2.2⟩, fun h => ⟨h.nonempty, h.trimmed, h.lowered⟩⟩

/-- Names that are read from a record are trimmed, in small letters and not empty. -/
theorem isTagName_of_mem_tagNames {names : List Text} {name : Text} (h : name ∈ tagNames names) :
    IsTagName name := by
  obtain ⟨written, hwritten, rfl⟩ := List.mem_map.mp h
  have hne := (List.mem_filter.mp hwritten).2
  rw [Bool.not_eq_true', List.isEmpty_eq_false_iff] at hne
  exact ⟨Text.lower_eq_nil_iff.not.mpr hne, Text.trim_lower_trim written, Text.lower_lower _⟩

/-- Names that are as they are compared are left alone. -/
theorem tagNames_eq_self {names : List Text} (h : ∀ name ∈ names, IsTagName name) :
    tagNames names = names := by
  have hfilter : (names.filter fun name => !(Text.trim name).isEmpty) = names := by
    refine List.filter_eq_self.mpr fun name hname => ?_
    rw [(h name hname).trimmed, Bool.not_eq_true', List.isEmpty_eq_false_iff]
    exact (h name hname).nonempty
  rw [tagNames, hfilter]
  refine (List.map_congr_left fun name hname => ?_).trans (List.map_id names)
  rw [(h name hname).trimmed, (h name hname).lowered, id]

/-- The names that a record holds are as they are compared, if the default ones are. -/
theorem isTagName_of_mem_tags {r : Record} {key : Text} {default : List Text}
    (hdefault : ∀ name ∈ default, IsTagName name) :
    ∀ name ∈ r.tags key default, IsTagName name := by
  rw [tags]
  split
  · exact fun name => isTagName_of_mem_tagNames
  · split
    · exact fun name => isTagName_of_mem_tagNames
    · exact hdefault
  · exact hdefault

/-- Such names, held as a list, are read as they are. -/
theorem tags_of_get? {r : Record} {key : Text} {names : List Text}
    (h : r.get? key = some (.list (names.map .str)))
    (hnames : ∀ name ∈ names, IsTagName name) (default : List Text) :
    r.tags key default = names := by
  rw [tags, find?_of_get? h]
  dsimp only
  rw [Json.texts?_eq_some_iff.mpr rfl]
  exact tagNames_eq_self hnames

end Record

namespace MarkupOptions

open Record (IsTagName)

/-! ## Valid options -/

/-- Options that a record can ask for. -/
structure IsValid (o : MarkupOptions) : Prop where
  indentChar : o.indentChar = [' '] ∨ o.indentChar = ['\t']
  indentSize : 0 ≤ o.indentSize
  wrapLineLength : 0 ≤ o.wrapLineLength
  wrapAttributes : o.wrapAttributes ∈ wrapModes
  maxPreserveNewlines : ∀ n ∈ o.maxPreserveNewlines, 0 ≤ n
  unformatted : ∀ name ∈ o.unformatted, IsTagName name
  contentUnformatted : ∀ name ∈ o.contentUnformatted, IsTagName name
  extraLiners : ∀ name ∈ o.extraLiners, IsTagName name
  templating : o.templating = ["php".toList]

/-- A record indents with blanks or with tabs. -/
theorem indentCharOf_cases (r : Record) : indentCharOf r = [' '] ∨ indentCharOf r = ['\t'] := by
  rw [indentCharOf]
  split
  · exact .inl rfl
  · exact .inr rfl
  · split
    · exact .inl rfl
    · exact .inr rfl

/-- No record asks for a negative indentation. -/
theorem indentSizeOf_nonneg (r : Record) : 0 ≤ indentSizeOf r := by
  have husual : 0 ≤ (if indentCharOf r = [' '] then max ((r.number? "tabSize".toList).getD 4) 0
      else 1) := by
    split <;> omega
  unfold indentSizeOf
  dsimp only
  split
  · split <;> omega
  · exact husual

/-- **The options of a record are valid**, whatever it holds. -/
theorem isValid_ofRecord (r : Record) : (ofRecord r).IsValid where
  indentChar := indentCharOf_cases r
  indentSize := indentSizeOf_nonneg r
  wrapLineLength := Int.le_max_right _ _
  wrapAttributes := by
    -- anything but a mode is replaced by one
    unfold ofRecord
    dsimp only
    split
    · split
      · rename_i hmode
        exact List.contains_iff_mem.mp hmode
      · decide
    · decide
  maxPreserveNewlines n hn := by
    have hkept := (Option.filter_eq_some_iff.mp (Option.mem_def.mp hn)).2
    exact of_decide_eq_true hkept
  unformatted := Record.isTagName_of_mem_tags (by decide +kernel)
  contentUnformatted := Record.isTagName_of_mem_tags (by decide +kernel)
  extraLiners := Record.isTagName_of_mem_tags (by decide +kernel)
  templating := rfl

/-! ## Options as a record -/

/-- The record that spells options out. -/
def toRecord (o : MarkupOptions) : Record :=
  [("indentChar".toList, .str o.indentChar),
   ("indentWidth".toList, .int o.indentSize),
   ("endWithNewline".toList, .bool o.endWithNewline),
   ("wrapLineLength".toList, .int o.wrapLineLength),
   ("wrapAttributes".toList, .str o.wrapAttributes),
   ("preserveNewlines".toList, .bool o.preserveNewlines),
   ("maxPreserveNewlines".toList, o.maxPreserveNewlines.elim .null .int),
   ("indentInnerHtml".toList, .bool o.indentInnerHtml),
   ("indentHandlebars".toList, .bool o.indentHandlebars),
   ("unformatted".toList, .list (o.unformatted.map .str)),
   ("contentUnformatted".toList, .list (o.contentUnformatted.map .str)),
   ("extraLiners".toList, .list (o.extraLiners.map .str))]

variable {o : MarkupOptions}

/-- The character of the indentation is read back. -/
theorem indentCharOf_toRecord (h : o.IsValid) : indentCharOf o.toRecord = o.indentChar := by
  rw [indentCharOf, Record.text?_of_get? (s := o.indentChar) rfl]
  rcases h.indentChar with hchar | hchar
  · rw [hchar]
    rfl
  · rw [hchar]
    rfl

/-- The width of the indentation is read back. -/
theorem indentSizeOf_toRecord (h : o.IsValid) : indentSizeOf o.toRecord = o.indentSize := by
  have hget : o.toRecord.get? "indentWidth".toList = some (.int o.indentSize) := rfl
  unfold indentSizeOf
  rw [Record.number?_of_get? hget]
  exact if_neg (Int.not_lt.mpr h.indentSize)

/-- The bound for empty lines is read back, and so is its absence. -/
theorem maxPreserveNewlines_toRecord (h : o.IsValid) :
    (o.toRecord.number? "maxPreserveNewlines".toList).filter (0 ≤ ·) = o.maxPreserveNewlines := by
  have hget : o.toRecord.get? "maxPreserveNewlines".toList =
      some (o.maxPreserveNewlines.elim .null .int) := rfl
  cases hlimit : o.maxPreserveNewlines with
  | none =>
    rw [hlimit] at hget
    rw [Record.number?_of_get?_null hget]
    rfl
  | some n =>
    rw [hlimit] at hget
    rw [Record.number?_of_get? hget]
    exact Option.filter_eq_some_iff.mpr ⟨rfl, decide_eq_true (h.maxPreserveNewlines n hlimit)⟩

/-- **Valid options are read back as they are.** -/
theorem ofRecord_toRecord (h : o.IsValid) : ofRecord o.toRecord = o := by
  have hlength : max ((o.toRecord.number? "wrapLineLength".toList).getD 120) 0 =
      o.wrapLineLength := by
    rw [Record.number?_of_get? (n := o.wrapLineLength) rfl]
    exact Int.max_eq_left h.wrapLineLength
  -- every option stands under its own key, so that no default is taken for it
  unfold ofRecord
  dsimp only
  rw [indentCharOf_toRecord h, indentSizeOf_toRecord h, hlength, maxPreserveNewlines_toRecord h,
    Record.flag_of_get? (b := o.endWithNewline) rfl,
    Record.flag_of_get? (b := o.preserveNewlines) rfl,
    Record.flag_of_get? (b := o.indentInnerHtml) rfl,
    Record.flag_of_get? (b := o.indentHandlebars) rfl,
    Record.text?_of_get? (s := o.wrapAttributes) rfl,
    Record.tags_of_get? rfl h.unformatted, Record.tags_of_get? rfl h.contentUnformatted,
    Record.tags_of_get? rfl h.extraLiners, ← h.templating]
  dsimp only
  rw [if_pos (List.contains_iff_mem.mpr h.wrapAttributes)]

/-- **Reading options leads onto the valid ones and leaves those in place.** Whatever a
record holds, the options read from it are valid, and spelled out as a record they are read
again as they are. Moreover the options that come back unchanged are just the valid ones. -/
theorem ofRecord_retracts (r : Record) :
    (ofRecord r).IsValid ∧ ofRecord (ofRecord r).toRecord = ofRecord r ∧
      ∀ o, ofRecord o.toRecord = o ↔ o.IsValid := by
  have hvalid := isValid_ofRecord r
  refine ⟨hvalid, ofRecord_toRecord hvalid, fun o => ⟨fun h => ?_, ofRecord_toRecord⟩⟩
  exact h ▸ isValid_ofRecord o.toRecord

end MarkupOptions

end TemplateTidy
