import TemplateTidy.Options.Lookup

/-!
# What a record holds

A record is told by what it has under each key. Setting a member changes what is under
its key and nothing else; setting several one after the other leaves under each key the
value of the last of them, or what was there before. Where each key occurs once, the last
value under a key is the only one.

An option is read by looking it up and passing over a null and a value of the wrong kind. One
that lies under its own key is read from there, since that is the first spelling tried.

Main results: `get?_set`, `get?_setAll`, `get?_setAll_of_keyed`.
-/

namespace TemplateTidy

namespace Record

/-! ## Members -/

/-- The values under a key, in order. -/
def values (members : List (Text × Json)) (key : Text) : List Json :=
  (members.filter fun e => e.1 = key).map (·.2)

/-- Each key occurs once. -/
def Keyed (r : Record) : Prop :=
  (r.map (·.1)).Nodup

instance (r : Record) : Decidable (Keyed r) :=
  inferInstanceAs (Decidable (r.map (·.1)).Nodup)

@[simp] theorem get?_nil (key : Text) : get? [] key = none := rfl

theorem get?_cons (k : Text) (v : Json) (r : Record) (key : Text) :
    get? ((k, v) :: r) key = if k = key then some v else get? r key := by
  rw [get?, List.lookup_cons]
  by_cases h : k = key
  · rw [if_pos h, beq_iff_eq.mpr h.symm]
  · rw [if_neg h, beq_eq_false_iff_ne.mpr (Ne.symm h)]
    rfl

/-- Setting a member changes what is under its key only. -/
theorem get?_set (r : Record) (key : Text) (v : Json) (key' : Text) :
    (r.set key v).get? key' = if key = key' then some v else r.get? key' := by
  induction r with
  | nil => rw [set, get?_cons]
  | cons e rest ih =>
    obtain ⟨k, w⟩ := e
    rw [set]
    by_cases hk : k = key
    · rw [if_pos hk, get?_cons, get?_cons, hk]
      split <;> rfl
    · rw [if_neg hk, get?_cons, get?_cons, ih]
      by_cases hkey : k = key'
      · rw [if_pos hkey, if_pos hkey, if_neg (fun h => hk (hkey.trans h.symm))]
      · rw [if_neg hkey, if_neg hkey]

theorem values_cons (k : Text) (v : Json) (members : List (Text × Json)) (key : Text) :
    values ((k, v) :: members) key =
      if k = key then v :: values members key else values members key := by
  unfold values
  by_cases h : k = key <;> simp [h]

/-- Nothing lies under a key that no member has. -/
theorem values_eq_nil_iff {members : List (Text × Json)} {key : Text} :
    values members key = [] ↔ ∀ e ∈ members, e.1 ≠ key := by
  simp [values]

/-- Members that are set one after the other leave their last value under each key, or what
was there before. -/
theorem get?_setAll (r : Record) (members : List (Text × Json)) (key : Text) :
    (setAll r members).get? key = (values members key).getLast?.or (r.get? key) := by
  induction members generalizing r with
  | nil => rfl
  | cons e rest ih =>
    obtain ⟨k, v⟩ := e
    have hstep : setAll r ((k, v) :: rest) = setAll (r.set k v) rest := rfl
    rw [hstep, ih, get?_set, values_cons]
    by_cases h : k = key
    · rw [if_pos h, if_pos h, List.getLast?_cons, Option.or_some, Option.some_or]
    · rw [if_neg h, if_neg h]

/-- Where each key occurs once, the last value under a key is the one that is found. -/
theorem Keyed.getLast?_values {r : Record} (h : Keyed r) (key : Text) :
    (values r key).getLast? = r.get? key := by
  induction r with
  | nil => rfl
  | cons e rest ih =>
    obtain ⟨k, v⟩ := e
    obtain ⟨hk, hrest⟩ := List.nodup_cons.mp h
    rw [values_cons, get?_cons]
    by_cases hkey : k = key
    · -- no other member has the key
      have hnone : values rest key = [] := by
        rw [values_eq_nil_iff]
        intro e he hkey'
        exact hk (List.mem_map.mpr ⟨e, he, hkey'.trans hkey.symm⟩)
      rw [if_pos hkey, if_pos hkey, hnone]
      rfl
    · rw [if_neg hkey, if_neg hkey, ih hrest]

/-- Of two records laid over each other the second one wins, key by key. -/
theorem get?_setAll_of_keyed (r : Record) {members : Record} (h : Keyed members) (key : Text) :
    (setAll r members).get? key = (members.get? key).or (r.get? key) := by
  rw [get?_setAll, h.getLast?_values]

/-! ## Options -/

/-- Without a second name, the value that is given is the one that is found, unless that is
null. -/
theorem given?_none_eq_some_iff {r : Record} {key : Text} {v : Json} (hv : v ≠ .null) :
    r.given? key none = some v ↔ r.find? key = some v := by
  rw [given?]
  cases r.find? key with
  | none => exact Iff.rfl
  | some w =>
    cases w with
    | null =>
      constructor
      · intro h
        exact nomatch h
      · intro h
        exact absurd (Option.some.inj h).symm hv
    | _ => exact Iff.rfl

/-- An option of any kind is what is found, unless that is a null. -/
theorem option_none (r : Record) (key : Text) (default : Json) :
    r.option key default none =
      match r.find? key with
      | none | some .null => default
      | some v => v := by
  rw [option, given?]
  cases r.find? key with
  | none => rfl
  | some v => cases v <;> rfl

/-- A flag that is off by default is on if a true truth value is found, and not otherwise. -/
theorem flag_false_eq_true_iff {r : Record} {key : Text} :
    r.flag key false = true ↔ r.find? key = some (.bool true) := by
  rw [flag, given?]
  cases hfind : r.find? key with
  | none => simp
  | some v => cases v <;> simp [Json.Kind.admits]

/-! ## A record with one member -/

/-- A record with one member holds that member only. -/
theorem get?_singleton {k key : Text} {v w : Json} :
    get? [(k, v)] key = some w ↔ k = key ∧ v = w := by
  rw [get?_cons, get?_nil]
  by_cases h : k = key
  · rw [if_pos h, Option.some.injEq, and_iff_right h]
  · rw [if_neg h]
    exact ⟨fun hw => (nomatch hw), fun hw => absurd hw.1 h⟩

/-- What a record with one member holds is found under a key that has the member's among its
spellings, and under no other. -/
theorem find?_singleton {k key : Text} {v : Json} :
    find? [(k, v)] key = some v ↔ k ∈ Key.spellings key := by
  constructor
  · intro h
    obtain ⟨k', hk', hv⟩ := List.exists_of_findSome?_eq_some h
    rwa [(get?_singleton.mp hv).1]
  · intro hk
    have hsome : (find? [(k, v)] key).isSome := by
      rw [find?, List.findSome?_isSome_iff]
      exact ⟨k, hk, Option.isSome_iff_exists.mpr ⟨v, get?_singleton.mpr ⟨rfl, rfl⟩⟩⟩
    -- something is found, and there is but one value
    obtain ⟨w, hw⟩ := Option.isSome_iff_exists.mp hsome
    obtain ⟨k', -, hv⟩ := List.exists_of_findSome?_eq_some hw
    rw [hw, (get?_singleton.mp hv).2]

/-- Such an option of any kind is read as it is, unless it is a null. -/
theorem option_singleton {k key : Text} (hk : k ∈ Key.spellings key) {v : Json} (hv : v ≠ .null)
    (default : Json) : option [(k, v)] key default none = v := by
  rw [option, (given?_none_eq_some_iff hv).mpr (find?_singleton.mpr hk), Option.getD_some]

/-! ## Options under their own key -/

variable {r : Record} {key : Text}

/-- The key itself is the first spelling that is looked for. -/
theorem find?_of_get? {v : Json} (h : r.get? key = some v) : r.find? key = some v := by
  rw [find?, Key.spellings, List.findSome?_cons, h]

/-- A truth value in the record is the option. -/
theorem flag_of_get? {b : Bool} (h : r.get? key = some (.bool b)) (default : Bool) :
    r.flag key default = b := by
  rw [flag, given?, find?_of_get? h]
  rfl

/-- A number in the record is the option. -/
theorem number?_of_get? {n : Int} (h : r.get? key = some (.int n)) : r.number? key = some n := by
  rw [number?, given?, find?_of_get? h]
  rfl

/-- Null in the record is no number. -/
theorem number?_of_get?_null (h : r.get? key = some .null) : r.number? key = none := by
  rw [number?, given?, find?_of_get? h]

/-- A text in the record is the option. -/
theorem text?_of_get? {s : Text} (h : r.get? key = some (.str s)) : r.text? key = some s := by
  rw [text?, given?, find?_of_get? h]
  rfl

end Record

/-- A list of texts is one whose values are all texts. -/
theorem Json.texts?_eq_some_iff {items : List Json} {names : List Text} :
    Json.texts? items = some names ↔ items = names.map .str := by
  induction items generalizing names with
  | nil =>
    cases names with
    | nil => exact ⟨fun _ => rfl, fun _ => rfl⟩
    | cons name rest => exact ⟨fun h => (nomatch h), fun h => (nomatch h)⟩
  | cons item rest ih =>
    cases item with
    | str s =>
      rw [Json.texts?, Option.map_eq_some_iff]
      constructor
      · rintro ⟨names, hnames, rfl⟩
        rw [List.map_cons, ih.mp hnames]
      · intro h
        cases names with
        | nil => exact nomatch h
        | cons name names =>
          obtain ⟨hname, hrest⟩ := List.cons.inj h
          exact ⟨names, ih.mpr hrest, congrArg (· :: names) (Json.str.inj hname)⟩
    | _ =>
      constructor
      · intro h
        exact nomatch h
      · intro h
        cases names <;> exact nomatch h

end TemplateTidy
