import TemplateTidy.Markup.Options
import TemplateTidy.Proofs.Settings.Precedence

/-!
# Which layout options of the overrides win

Entries with layout options are laid over each other by their keys as they are spelled,
but an option is looked up in camel case first, and with underscores only if that finds
nothing. So an option that the overrides spell in camel case always wins. One that they
spell with underscores is hidden by the same option in camel case, if an earlier entry has
left that there.

Main result: `Settings.load_override_wins_iff`.
-/

namespace TemplateTidy

namespace MarkupOptions

/-- The keys of the options that are read from a record. -/
def optionKeys : List Text :=
  ["insertSpaces", "tabSize", "indentChar", "indentWidth", "endWithNewline", "wrapLineLength",
   "wrapAttributes", "preserveNewlines", "maxPreserveNewlines", "indentInnerHtml",
   "indentHandlebars", "unformatted", "contentUnformatted", "extraLiners"].map String.toList

/-- The keys of the options are in camel case. -/
theorem camel_of_mem_optionKeys : ∀ key ∈ optionKeys, Key.camel key = key := by
  decide +kernel

end MarkupOptions

namespace Record

/-- The record holds `v` under one spelling of the key, and nothing under the others. -/
def HoldsOnce (r : Record) (key : Text) (v : Json) : Prop :=
  ∃ k ∈ Key.spellings key, r.get? k = some v ∧
    ∀ k' ∈ Key.spellings key, k' ≠ k → r.get? k' = none

/-- A key in camel case is looked up as it is, and then with underscores. -/
theorem find?_of_camel {key : Text} (hkey : Key.camel key = key) (r : Record) :
    r.find? key = (r.get? key).or (r.get? (Key.snake key)) := by
  rw [find?, Key.spellings, hkey]
  simp only [List.findSome?_cons, List.findSome?_nil]
  cases r.get? key with
  | none => cases r.get? (Key.snake key) <;> rfl
  | some w => rfl

/-- A key in camel case that is held once is held as it is, or else with underscores. -/
theorem HoldsOnce.of_camel {r : Record} {key : Text} {v : Json} (h : r.HoldsOnce key v)
    (hkey : Key.camel key = key) :
    r.get? key = some v ∨ r.get? key = none ∧ r.get? (Key.snake key) = some v := by
  obtain ⟨k, hk, hv, hothers⟩ := h
  rw [Key.spellings, hkey] at hk hothers
  by_cases hsame : key = k
  · exact .inl (hsame ▸ hv)
  · have hsnake : k = Key.snake key := by
      simpa [Ne.symm hsame] using hk
    exact .inr ⟨hothers key List.mem_cons_self hsame, hsnake ▸ hv⟩

/-- A record with one member holds it once. -/
theorem holdsOnce_singleton {k key : Text} (hk : k ∈ Key.spellings key) (v : Json) :
    HoldsOnce [(k, v)] key v := by
  refine ⟨k, hk, ?_, fun k' _ hne => ?_⟩
  · rw [get?_cons, if_pos rfl]
  · rw [get?_cons, if_neg (Ne.symm hne), get?_nil]

end Record

namespace Settings

section

variable {r new : Record} {before : List Json} {key : Text} {v : Json}

/-- Under a key that the last entry leaves alone the earlier value is found. -/
theorem find?_of_prevails
    (hlaid : ∀ k w, r.get? k = some w ↔ Prevails k (before ++ [.object new]) w)
    (hkey : Key.camel key = key) (hnone : new.get? key = none) {w : Json}
    (hw : Prevails key before w) : r.find? key = some w := by
  have hget : r.get? key = some w :=
    (hlaid key w).mpr (prevails_concat.mpr ⟨new, rfl, .inr ⟨hnone, hw⟩⟩)
  rw [Record.find?_of_camel hkey, hget, Option.some_or]

/-- **An option that is held once by the last entry is found, unless the entry spells it
with underscores and an earlier one has left another value in camel case.** -/
theorem find?_eq_some_iff
    (hlaid : ∀ k w, r.get? k = some w ↔ Prevails k (before ++ [.object new]) w)
    (hkey : Key.camel key = key) (honce : new.HoldsOnce key v) :
    r.find? key = some v ↔ new.get? key = some v ∨ ∀ w, Prevails key before w → w = v := by
  have hwins : ∀ k, new.get? k = some v → r.get? k = some v := by
    intro k hk
    exact (hlaid k v).mpr (prevails_concat.mpr ⟨new, rfl, .inl hk⟩)
  rcases honce.of_camel hkey with hv | ⟨hnone, hv⟩
  -- in camel case it is looked up first, and with underscores only if that finds nothing
  · rw [Record.find?_of_camel hkey, hwins key hv, Option.some_or]
    exact ⟨fun _ => .inl hv, fun _ => rfl⟩
  · constructor
    · intro hfind
      refine .inr fun w hw => ?_
      rw [find?_of_prevails hlaid hkey hnone hw] at hfind
      exact Option.some.inj hfind
    · intro h
      rw [hnone] at h
      rw [Record.find?_of_camel hkey]
      cases hget : r.get? key with
      | none => rw [Option.none_or, hwins _ hv]
      | some w =>
        -- what is found in camel case was there before
        obtain ⟨_, hnew, hw⟩ := prevails_concat.mp ((hlaid key w).mp hget)
        cases hnew
        rw [hnone] at hw
        have hprevails : Prevails key before w := by simpa using hw
        have hall : ∀ w, Prevails key before w → w = v := by simpa using h
        rw [Option.some_or, hall w hprevails]

end

/-- **A layout option of the overrides wins if it is in camel case.** Let the last of the
entries with layout options, in the file and the overrides, be an object `new` that holds
`v` under exactly one spelling of an option that is read from it, and let `v` be no null.
From the settings that are loaded `v` is read exactly if `new` spells the option in camel
case, or else the entries before leave nothing but `v` under that spelling. What they leave
there is found if `new` spells the option with underscores. -/
theorem load_override_wins_iff (folder : Folder) (path : Option Text) (overrides file : Record)
    (hfile : fileMembers folder path = .ok file)
    (hkeyed : ∀ members, .object members ∈ entries overrides htmlKey → Record.Keyed members)
    (before : List Json) (new : Record)
    (hentries : htmlEntries file overrides = before ++ [.object new])
    (key : Text) (v : Json) (hkey : key ∈ MarkupOptions.optionKeys) (hv : v ≠ .null)
    (honce : new.HoldsOnce key v) :
    ∃ settings warnings, load folder path overrides = .ok (settings, warnings) ∧
      (settings.html.given? key none = some v ↔
        new.get? key = some v ∨ ∀ w, Prevails key before w → w = v) ∧
      (new.get? key = none → ∀ w, Prevails key before w → settings.html.find? key = some w) := by
  refine ⟨(ofRecord (merge file overrides)).1, (ofRecord (merge file overrides)).2, ?_, ?_⟩
  · rw [load_eq, hfile]
    rfl
  have hcamel := MarkupOptions.camel_of_mem_optionKeys key hkey
  have hlaid : ∀ k w, (ofRecord (merge file overrides)).1.html.get? k = some w ↔
      Prevails k (before ++ [.object new]) w := by
    intro k w
    rw [html_ofRecord_merge, get?_optionsOf_foldl hkeyed, ← hentries]
    rfl
  constructor
  · rw [Record.given?_none_eq_some_iff hv]
    exact find?_eq_some_iff hlaid hcamel honce
  · intro hnone w hw
    exact find?_of_prevails hlaid hcamel hnone hw

/-- Between two spellings of an option the one in camel case wins, here that of the
overrides. -/
theorem load_override_wins_iff_camel :
    let path := "settings.json".toList
    let folder : Folder :=
      { files := [(path, "\x7b\"html\":\x7b\"tab_size\":2\x7d\x7d".toUTF8.data.toList)] }
    let old : Record := [("tab_size".toList, .int 2)]
    let new : Record := [("tabSize".toList, .int 4)]
    let file : Record := [("html".toList, .object old)]
    let overrides : Record := [("html".toList, .object new)]
    fileMembers folder (some path) = .ok file ∧
      (∀ members, .object members ∈ entries overrides htmlKey → Record.Keyed members) ∧
      htmlEntries file overrides = [.object old] ++ [.object new] ∧
      "tabSize".toList ∈ MarkupOptions.optionKeys ∧ Json.int 4 ≠ .null ∧
      new.HoldsOnce "tabSize".toList (.int 4) ∧
      ∃ settings warnings, load folder (some path) overrides = .ok (settings, warnings) ∧
        settings.html.given? "tabSize".toList none = some (.int 4) := by
  intro path folder old new file overrides
  -- the hypotheses of the law, one by one
  have hfile : fileMembers folder (some path) = .ok file := by
    with_unfolding_all rfl
  have hhtml : entries overrides htmlKey = [.object new] := by
    with_unfolding_all rfl
  have hkeyed : ∀ members, .object members ∈ entries overrides htmlKey → Record.Keyed members := by
    intro members hmembers
    rw [hhtml, List.mem_singleton] at hmembers
    rw [Json.object.inj hmembers]
    decide
  have hentries : htmlEntries file overrides = [.object old] ++ [.object new] := by
    with_unfolding_all rfl
  have hkey : "tabSize".toList ∈ MarkupOptions.optionKeys := by
    decide
  have hv : Json.int 4 ≠ .null := by
    intro h
    exact nomatch h
  have honce : new.HoldsOnce "tabSize".toList (.int 4) :=
    Record.holdsOnce_singleton List.mem_cons_self _
  obtain ⟨settings, warnings, hload, hwins, -⟩ :=
    load_override_wins_iff folder (some path) overrides file hfile hkeyed [.object old] new
      hentries "tabSize".toList (.int 4) hkey hv honce
  exact ⟨hfile, hkeyed, hentries, hkey, hv, honce, settings, warnings, hload,
    hwins.mpr (.inl rfl)⟩

/-- An option of the overrides with underscores is hidden by one of the file in camel
case. -/
theorem load_override_hidden :
    let path := "settings.json".toList
    let folder : Folder :=
      { files := [(path, "\x7b\"html\":\x7b\"tabSize\":2\x7d\x7d".toUTF8.data.toList)] }
    let new : Record := [("tab_size".toList, .int 4)]
    let overrides : Record := [("html".toList, .object new)]
    new.HoldsOnce "tabSize".toList (.int 4) ∧
      ∃ settings warnings, load folder (some path) overrides = .ok (settings, warnings) ∧
        settings.html.given? "tabSize".toList none = some (.int 2) := by
  intro path folder new overrides
  have hfile : fileMembers folder (some path) =
      .ok [("html".toList, .object [("tabSize".toList, .int 2)])] := by
    with_unfolding_all rfl
  refine ⟨Record.holdsOnce_singleton (by decide +kernel) _, ?_⟩
  rw [load_eq, hfile]
  exact ⟨_, _, rfl, by with_unfolding_all rfl⟩

end Settings

end TemplateTidy
