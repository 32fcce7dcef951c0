import Mathlib.Control.Monad.Basic
import Mathlib.Data.List.Induction
import TemplateTidy.Proofs.Options.Words
import TemplateTidy.Settings.Load

/-!
# Which entry decides a setting

The entries of a file and of the overrides are compared by their keys as they are spelled
with underscores. Of the entries under one key the last one of the overrides decides, or
else the last one of the file; where it has the wrong shape the setting has its default,
and no earlier entry shines through.

The layout options are put together from several entries. An object is laid over the
object before it, key by key; anything else takes the place of what was there. So under
each key the options hold what the last entry says that is followed by objects only
(`Settings.Prevails`).

Main result: `Settings.load_decided`.
-/

namespace TemplateTidy

namespace Settings

/-! ## Entries -/

/-- The values of the entries under a key, in order. The keys of the entries are compared
as they are spelled with underscores. -/
def entries (r : Record) (key : Text) : List Json :=
  Record.values (r.map fun (k, v) => (Key.snake k, v)) key

/-- The entry that decides a setting: the last one of the overrides, or else the last one
of the file. -/
def decisive (file overrides : Record) (key : Text) : Option Json :=
  (entries overrides key).getLast?.or (entries file key).getLast?

/-- The entries with layout options: the last one of the file, and those of the
overrides. -/
def htmlEntries (file overrides : Record) : List Json :=
  (entries file htmlKey).getLast?.toList ++ entries overrides htmlKey

theorem entries_cons (k : Text) (v : Json) (r : Record) (key : Text) :
    entries ((k, v) :: r) key = if Key.snake k = key then v :: entries r key else entries r key :=
  Record.values_cons (Key.snake k) v _ key

/-- There are no entries under a key that has a capital letter. -/
theorem entries_eq_nil {key : Text} (h : ∃ c ∈ key, c.isUpper = true) (r : Record) :
    entries r key = [] := by
  rw [entries, Record.values_eq_nil_iff]
  intro e he
  obtain ⟨⟨k, v⟩, -, rfl⟩ := List.mem_map.mp he
  exact Key.snake_ne h k

/-- Of the entries of a file under one key the last one counts. -/
theorem get?_ofFile (file : Record) (key : Text) :
    (ofFile file).get? key = (entries file key).getLast? := by
  rw [ofFile, Record.ofMembers, Record.get?_setAll]
  exact Option.or_none

/-! ## One entry after the other -/

/-- The entry with layout options after one more: an object is laid over an object, and
anything else takes the place of what was there. -/
def layered (old : Option Json) (v : Json) : Json :=
  match v, old with
  | .object new, some (.object old) => .object (Record.setAll old new)
  | v, _ => v

/-- An override is set under its key with underscores. -/
theorem override_eq (r : Record) (k : Text) (v : Json) :
    override r k v =
      r.set (Key.snake k) (if Key.snake k = htmlKey then layered (r.get? htmlKey) v else v) := by
  unfold override layered
  cases v with
  | object new =>
    cases r.get? htmlKey with
    | none => simp
    | some old =>
      cases old with
      | object members =>
        dsimp only
        split <;> rfl
      | _ => simp
  | _ => simp

/-- An override puts its value under the key with underscores, laid over what was there if it is
the key of the layout options. -/
theorem get?_override (r : Record) (k : Text) (v : Json) (key : Text) :
    (override r k v).get? key =
      if Key.snake k = key then
        some (if Key.snake k = htmlKey then layered (r.get? htmlKey) v else v)
      else r.get? key := by
  rw [override_eq, Record.get?_set]

/-- Of the entries that are replaced the decisive one is left. -/
theorem get?_merge_of_ne {key : Text} (hkey : key ≠ htmlKey) (file overrides : Record) :
    (merge file overrides).get? key = decisive file overrides key := by
  rw [merge, decisive, ← get?_ofFile file key]
  generalize ofFile file = r
  induction overrides generalizing r with
  | nil => rfl
  | cons e rest ih =>
    obtain ⟨k, v⟩ := e
    rw [List.foldl_cons, ih, get?_override, entries_cons]
    by_cases h : Key.snake k = key
    · rw [if_pos h, if_pos h, if_neg (h ▸ hkey), List.getLast?_cons, Option.or_some,
        Option.some_or]
    · rw [if_neg h, if_neg h]

/-- The entries with layout options are laid over each other. -/
theorem get?_merge_htmlKey (file overrides : Record) :
    (merge file overrides).get? htmlKey =
      (entries overrides htmlKey).foldl (fun old v => some (layered old v))
        (entries file htmlKey).getLast? := by
  rw [merge, ← get?_ofFile file htmlKey]
  generalize ofFile file = r
  induction overrides generalizing r with
  | nil => rfl
  | cons e rest ih =>
    obtain ⟨k, v⟩ := e
    rw [List.foldl_cons, ih, get?_override, entries_cons]
    by_cases h : Key.snake k = htmlKey
    · rw [if_pos h, if_pos h, if_pos h, List.foldl_cons]
    · rw [if_neg h, if_neg h]

/-! ## What is looked up -/

/-- An option with a capital letter in its key is found under the key with underscores. -/
theorem find?_merge {key : Text} (name : Text) (hspellings : Key.spellings key = [key, key, name])
    (hkey : ∃ c ∈ key, c.isUpper = true) (hname : name ≠ htmlKey) (file overrides : Record) :
    (merge file overrides).find? key = decisive file overrides name := by
  have hcapital : key ≠ htmlKey := by
    rintro rfl
    exact absurd hkey (by decide)
  have hnone : (merge file overrides).get? key = none := by
    rw [get?_merge_of_ne hcapital, decisive, entries_eq_nil hkey, entries_eq_nil hkey]
    rfl
  rw [Record.find?, hspellings, List.findSome?_cons, hnone, List.findSome?_cons, hnone,
    List.findSome?_singleton, get?_merge_of_ne hname]

/-- An option of one word is found under that word. -/
theorem find?_of_spellings {key : Text} (hspellings : Key.spellings key = [key, key, key])
    (r : Record) : r.find? key = r.get? key := by
  rw [Record.find?, hspellings]
  simp only [List.findSome?_cons, List.findSome?_nil]
  cases r.get? key <;> rfl

/-! ## Layout options -/

/-- The layout options that an entry stands for. -/
def optionsOf : Option Json → Record
  | some (.object members) => members
  | _ => []

/-- Under `key` the last of the entries holds `v` that holds anything there and is
followed, itself included, by objects only. -/
def Prevails (key : Text) (entries : List Json) (v : Json) : Prop :=
  ∃ before members after, entries = before ++ .object members :: after ∧
    Record.get? members key = some v ∧
    ∀ e ∈ after, ∃ members', e = .object members' ∧ Record.get? members' key = none

/-- Without entries nothing prevails. -/
theorem not_prevails_nil (key : Text) (v : Json) : ¬ Prevails key [] v := by
  rintro ⟨before, members, after, hentries, -, -⟩
  exact absurd hentries.symm (by simp)

/-- The last entry decides, unless it is an object that leaves the key to those before. -/
theorem prevails_concat {key : Text} {es : List Json} {e v : Json} :
    Prevails key (es ++ [e]) v ↔
      ∃ members, e = .object members ∧
        (Record.get? members key = some v ∨
          Record.get? members key = none ∧ Prevails key es v) := by
  constructor
  · rintro ⟨before, members, after, hentries, hv, hafter⟩
    -- the object that holds the key is the last entry itself, or stands before it
    rcases List.eq_nil_or_concat after with rfl | ⟨after', e', rfl⟩
    · obtain ⟨-, hlast⟩ := List.append_inj' hentries rfl
      exact ⟨members, (List.cons.inj hlast).1, .inl hv⟩
    · rw [List.concat_eq_append, ← List.cons_append, ← List.append_assoc] at hentries
      obtain ⟨hes, hlast⟩ := List.append_inj' hentries rfl
      rw [List.concat_eq_append] at hafter
      obtain ⟨members', he', hnone⟩ := hafter e' (by simp)
      refine ⟨members', (List.cons.inj hlast).1.trans he', .inr ⟨hnone, before, members, after',
        hes, hv, fun e he => hafter e (List.mem_append_left _ he)⟩⟩
  · rintro ⟨members, rfl, hv | ⟨hnone, before, members', after, rfl, hv, hafter⟩⟩
    · exact ⟨es, members, [], rfl, hv, fun _ he => nomatch he⟩
    · refine ⟨before, members', after ++ [.object members], by simp, hv, fun e he => ?_⟩
      rcases List.mem_append.mp he with he | he
      · exact hafter e he
      · exact ⟨members, List.mem_singleton.mp he, hnone⟩

/-- A single entry prevails with what it holds. -/
theorem prevails_singleton {key : Text} {e v : Json} :
    Prevails key [e] v ↔ ∃ members, e = .object members ∧ Record.get? members key = some v := by
  have hconcat := @prevails_concat key [] e v
  rw [List.nil_append] at hconcat
  simp only [hconcat, not_prevails_nil, and_false, or_false]

/-- An object that is laid over another entry wins key by key. -/
theorem get?_optionsOf_layered (old : Option Json) {new : Record} (hnew : new.Keyed)
    (key : Text) :
    (optionsOf (some (layered old (.object new)))).get? key =
      (new.get? key).or ((optionsOf old).get? key) := by
  cases old with
  | none => exact Option.or_none.symm
  | some w =>
    cases w with
    | object members => exact Record.get?_setAll_of_keyed members hnew key
    | _ => exact Option.or_none.symm

/-- What is no object leaves no layout options. -/
theorem optionsOf_layered (old : Option Json) {v : Json} (hv : ∀ members, v ≠ .object members) :
    optionsOf (some (layered old v)) = [] := by
  cases v with
  | object members => exact absurd rfl (hv members)
  | _ => rfl

/-- **Laying the entries over each other leaves what prevails under each key.** -/
theorem get?_optionsOf_foldl {old : Option Json} {es : List Json} {key : Text} {v : Json}
    (hkeyed : ∀ members, .object members ∈ es → Record.Keyed members) :
    (optionsOf (es.foldl (fun old v => some (layered old v)) old)).get? key = some v ↔
      Prevails key (old.toList ++ es) v := by
  -- from the end, since it is the last entry that is laid over what the others left
  induction es using List.reverseRecOn with
  | nil =>
    rw [List.foldl_nil, List.append_nil]
    cases old with
    | none => simp [optionsOf, not_prevails_nil]
    | some w =>
      rw [Option.toList_some, prevails_singleton]
      cases w <;> simp [optionsOf]
  | append_singleton es e ih =>
    have ih := ih fun members hm => hkeyed members (List.mem_append_left _ hm)
    rw [List.foldl_append, List.foldl_cons, List.foldl_nil, ← List.append_assoc, prevails_concat]
    by_cases he : ∃ members, e = .object members
    · obtain ⟨new, rfl⟩ := he
      have hnew := hkeyed new (List.mem_append_right _ (List.mem_singleton.mpr rfl))
      rw [get?_optionsOf_layered _ hnew, Option.or_eq_some_iff, ih]
      simp only [Json.object.injEq, exists_eq_left']
    · rw [optionsOf_layered _ fun members h => he ⟨members, h⟩]
      constructor
      · intro h
        exact nomatch h
      · rintro ⟨members, h, -⟩
        exact absurd ⟨members, h⟩ he

/-- Entries of which the last one is no object leave no layout options. -/
theorem optionsOf_foldl {old : Option Json} {es : List Json}
    (hlast : ∀ members, (old.toList ++ es).getLast? ≠ some (.object members)) :
    optionsOf (es.foldl (fun old v => some (layered old v)) old) = [] := by
  rcases List.eq_nil_or_concat es with rfl | ⟨before, e, rfl⟩
  · rw [List.append_nil] at hlast
    cases old with
    | none => rfl
    | some w =>
      cases w with
      | object members => exact absurd rfl (hlast members)
      | _ => rfl
  · rw [List.concat_eq_append, ← List.append_assoc] at hlast
    rw [List.concat_eq_append, List.foldl_append, List.foldl_cons, List.foldl_nil]
    refine optionsOf_layered _ fun members he => hlast members ?_
    rw [List.getLast?_append, he]
    rfl

/-! ## The settings of a record -/

/-- The layout options are those of the record's own entry. -/
theorem html_ofRecord (r : Record) :
    (ofRecord r).1.html = optionsOf (r.find? "html".toList) := by
  unfold ofRecord
  dsimp only
  rw [Record.option_none]
  cases r.find? "html".toList with
  | none => rfl
  | some v => cases v <;> rfl

/-- The layout options of a file with overrides are what its entries leave. -/
theorem html_ofRecord_merge (file overrides : Record) :
    (ofRecord (merge file overrides)).1.html =
      optionsOf ((entries overrides htmlKey).foldl (fun old v => some (layered old v))
        (entries file htmlKey).getLast?) := by
  rw [html_ofRecord, find?_of_spellings (by decide +kernel)]
  exact congrArg optionsOf (get?_merge_htmlKey file overrides)

/-- The patterns are those of the record's own entry, if it has the right type. -/
theorem exclude_ofRecord (r : Record) :
    (ofRecord r).1.exclude =
      (((r.find? "exclude".toList).bind patternsOf).getD []).map .str := by
  unfold ofRecord
  dsimp only
  rw [Record.option_none]
  cases r.find? "exclude".toList with
  | none => rfl
  | some v =>
    cases v with
    | list items =>
      dsimp only [Option.bind_some]
      cases patternsOf (.list items) <;> rfl
    | _ => rfl

/-- Patterns are texts that are not blank, written as a list or as one of them alone. -/
theorem patternsOf_str (s : Text) :
    patternsOf (.str s) = some ([s].filter (!Text.allBlank ·)) :=
  rfl

/-- A list of texts stands for those that are not blank. -/
theorem patternsOf_list (names : List Text) :
    patternsOf (.list (names.map .str)) = some (names.filter (!Text.allBlank ·)) := by
  rw [patternsOf, Json.texts?_eq_some_iff.mpr rfl]
  rfl

/-- Nothing else than a text or a list of texts stands for patterns. -/
theorem patternsOf_of_ne {v : Json} (hstr : ∀ s, v ≠ .str s)
    (hlist : ∀ names : List Text, v ≠ .list (names.map .str)) : patternsOf v = none := by
  cases v with
  | str s => exact absurd rfl (hstr s)
  | list items =>
    rw [patternsOf, Option.map_eq_none_iff]
    cases htexts : Json.texts? items with
    | none => rfl
    | some names =>
      exact absurd (congrArg Json.list (Json.texts?_eq_some_iff.mp htexts)) (hlist names)
  | _ => rfl

/-- The members of the settings file. Without a file there are none. -/
def fileMembers (folder : Folder) : Option Text → Except SettingsError Record
  | none | some [] => .ok []
  | some path => readFile folder path

/-- Settings are loaded by reading the file and laying the overrides over it. -/
theorem load_eq (folder : Folder) (path : Option Text) (overrides : Record) :
    load folder path overrides =
      (fileMembers folder path).map fun file => ofRecord (merge file overrides) := by
  match path with
  | none => rfl
  | some [] => rfl
  | some (c :: cs) =>
    show (readFile folder (c :: cs) >>= fun file => _) = (readFile folder (c :: cs)).map _
    cases readFile folder (c :: cs) <;> rfl

/-- **The last entry decides a setting.** Settings that are loaded from a file and overrides
are on or off as the last override under their name says, or else the last entry of the
file; what is no truth value counts as off. The same entry gives the patterns: a text is
one pattern, a list of texts is as many, the blank ones are dropped, and anything else
gives none. Under each key the layout options hold what the last of their entries says
that holds the key and is followed, itself included, by objects only; there are none if
the last entry is no object. Names are compared as they are spelled with underscores. -/
theorem load_decided (folder : Folder) (path : Option Text) (overrides file : Record)
    (hfile : fileMembers folder path = .ok file)
    (hkeyed : ∀ members, .object members ∈ entries overrides htmlKey → Record.Keyed members) :
    ∃ settings warnings, load folder path overrides = .ok (settings, warnings) ∧
      (settings.formatHtml = true ↔
        decisive file overrides "format_html".toList = some (.bool true)) ∧
      (settings.shortTags = true ↔
        decisive file overrides "short_tags".toList = some (.bool true)) ∧
      ((∀ s, decisive file overrides "exclude".toList = some (.str s) →
          settings.exclude = ([s].filter (!Text.allBlank ·)).map .str) ∧
        (∀ names : List Text,
          decisive file overrides "exclude".toList = some (.list (names.map .str)) →
          settings.exclude = (names.filter (!Text.allBlank ·)).map .str) ∧
        ((∀ s, decisive file overrides "exclude".toList ≠ some (.str s)) →
          (∀ names : List Text,
            decisive file overrides "exclude".toList ≠ some (.list (names.map .str))) →
          settings.exclude = [])) ∧
      (∀ key v, settings.html.get? key = some v ↔
        Prevails key (htmlEntries file overrides) v) ∧
      ((∀ members, (htmlEntries file overrides).getLast? ≠ some (.object members)) →
        settings.html = []) := by
  refine ⟨(ofRecord (merge file overrides)).1, (ofRecord (merge file overrides)).2, ?_, ?_⟩
  · rw [load_eq, hfile]
    rfl
  -- what is read from the merged record is decided by the entries of both
  have hhtml := html_ofRecord_merge file overrides
  have hexclude : (ofRecord (merge file overrides)).1.exclude =
      (((decisive file overrides "exclude".toList).bind patternsOf).getD []).map .str := by
    rw [exclude_ofRecord, find?_of_spellings (by decide +kernel),
      get?_merge_of_ne (by decide)]
  refine ⟨?_, ?_, ⟨?_, ?_, ?_⟩, ?_, ?_⟩
  · show Record.flag _ _ _ = true ↔ _
    rw [Record.flag_false_eq_true_iff,
      find?_merge "format_html".toList (by decide +kernel) (by decide) (by decide)]
  · show Record.flag _ _ _ = true ↔ _
    rw [Record.flag_false_eq_true_iff,
      find?_merge "short_tags".toList (by decide +kernel) (by decide) (by decide)]
  · -- the patterns: one text, a list of texts, or anything else
    intro s hs
    rw [hexclude, hs, Option.bind_some, patternsOf_str, Option.getD_some]
  · intro names hnames
    rw [hexclude, hnames, Option.bind_some, patternsOf_list, Option.getD_some]
  · intro hstr hlist
    cases hdecisive : decisive file overrides "exclude".toList with
    | none =>
      rw [hexclude, hdecisive]
      rfl
    | some v =>
      rw [hdecisive] at hstr hlist
      rw [hexclude, hdecisive, Option.bind_some,
        patternsOf_of_ne (fun s h => hstr s (congrArg some h))
          fun names h => hlist names (congrArg some h)]
      rfl
  · -- the layout options, key by key
    intro key v
    rw [hhtml, get?_optionsOf_foldl hkeyed]
    rfl
  · -- an entry that is no object leaves no layout options
    intro hlast
    rw [hhtml]
    exact optionsOf_foldl hlast

/-- The overrides decide between two spellings in the file, give patterns a wrong shape, and
lay one layout option over those of the file. -/
theorem load_decided_layered :
    let path := "settings.json".toList
    let json := "\x7b\"format_html\":false,\"exclude\":[\"a\"]," ++
      "\"html\":\x7b\"tabSize\":2,\"indentChar\":\"x\"\x7d\x7d"
    let folder : Folder := { files := [(path, json.toUTF8.data.toList)] }
    let old : Record := [("tabSize".toList, .int 2), ("indentChar".toList, .str ['x'])]
    let new : Record := [("tabSize".toList, .int 4)]
    let file : Record :=
      [("format_html".toList, .bool false), ("exclude".toList, .list [.str ['a']]),
        ("html".toList, .object old)]
    let overrides : Record :=
      [("formatHtml".toList, .bool true), ("exclude".toList, .int 5), ("Html".toList, .object new)]
    fileMembers folder (some path) = .ok file ∧
      (∀ members, .object members ∈ entries overrides htmlKey → Record.Keyed members) ∧
      ∃ settings warnings, load folder (some path) overrides = .ok (settings, warnings) ∧
        settings.formatHtml = true ∧ settings.exclude = [] ∧
        settings.html.get? "tabSize".toList = some (.int 4) ∧
        settings.html.get? "indentChar".toList = some (.str ['x']) := by
  intro path json folder old new file overrides
  have hfile : fileMembers folder (some path) = .ok file := by
    with_unfolding_all rfl
  have hhtml : entries overrides htmlKey = [.object new] := by
    with_unfolding_all rfl
  have hkeyed : ∀ members, .object members ∈ entries overrides htmlKey → Record.Keyed members := by
    intro members hmembers
    rw [hhtml, List.mem_singleton] at hmembers
    rw [Json.object.inj hmembers]
    decide
  have hentries : htmlEntries file overrides = [.object old, .object new] := by
    with_unfolding_all rfl
  obtain ⟨settings, warnings, hload, hformat, -, ⟨-, -, hexclude⟩, hprevails, -⟩ :=
    load_decided folder (some path) overrides file hfile hkeyed
  -- a number is neither a text nor a list of texts
  have hfive : decisive file overrides "exclude".toList = some (.int 5) := by
    with_unfolding_all rfl
  refine ⟨hfile, hkeyed, settings, warnings, hload, hformat.mpr (by with_unfolding_all rfl),
    hexclude ?_ ?_, (hprevails _ _).mpr ?_, (hprevails _ _).mpr ?_⟩
  · intro s
    rw [hfive]
    exact fun h => nomatch h
  · intro names
    rw [hfive]
    exact fun h => nomatch h
  · -- the override has the one key, and leaves the other to the file
    exact ⟨[.object old], new, [], hentries, rfl, fun _ h => nomatch h⟩
  · exact ⟨[], old, [.object new], hentries, rfl, fun e he => ⟨new, List.mem_singleton.mp he, rfl⟩⟩

end Settings

end TemplateTidy
