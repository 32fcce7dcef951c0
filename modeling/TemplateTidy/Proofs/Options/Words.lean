import Mathlib
import TemplateTidy.Proofs.Options.Record
import TemplateTidy.Proofs.Text.Fields
import TemplateTidy.Proofs.Text.Lowering

/-!
# Keys as lists of words

A key spells a list of words, each of small letters and digits of ASCII with a letter
first. In camel case the words follow one another, all but the first capitalised
(`Key.camelOf`); with underscores there is one between neighbours (`Key.snakeOf`). Every key
of either kind spells some words, for a capital letter shows where a word begins. Both
translations go from one spelling of the words to the other, whatever their number and
length, so each undoes the other, and an option is found under both spellings.

Main result: `Key.spellings_interchange`.
-/

namespace TemplateTidy.Key

/-! ## Characters -/

/-- A small letter of ASCII, or a digit. -/
def isWordChar (c : Char) : Bool :=
  c.isLower || c.isDigit

section

variable {c : Char}

/-- A letter or digit is a capital letter, or belongs to a word. -/
theorem isAlphanum_eq (c : Char) : c.isAlphanum = (c.isUpper || isWordChar c) :=
  Bool.or_assoc c.isUpper c.isLower c.isDigit

/-- The characters of words are letters and digits. -/
theorem isAlphanum_of_isWordChar (h : isWordChar c = true) : c.isAlphanum = true := by
  rw [isAlphanum_eq, h, Bool.or_true]

theorem isAlphanum_of_isUpper (h : c.isUpper = true) : c.isAlphanum = true := by
  rw [isAlphanum_eq, h, Bool.true_or]

theorem isWordChar_of_isLower (h : c.isLower = true) : isWordChar c = true := by
  rw [isWordChar, h, Bool.true_or]

/-- The characters of words by their numbers. -/
theorem isWordChar_iff : isWordChar c = true ↔
    97 ≤ c.toNat ∧ c.toNat ≤ 122 ∨ 48 ≤ c.toNat ∧ c.toNat ≤ 57 := by
  simp [isWordChar, Char.isLower, UInt32.le_iff_toNat_le, Char.isDigit_iff_toNat]

/-- Letters and digits are characters of ASCII. -/
theorem lt_of_isAlphanum (h : c.isAlphanum = true) : c.toNat < 0x80 := by
  rw [isAlphanum_eq, Bool.or_eq_true, isUpper_iff, isWordChar_iff] at h
  omega

/-- No capital letter stands in a word. -/
theorem isUpper_of_isWordChar (h : isWordChar c = true) : c.isUpper = false := by
  refine Bool.eq_false_iff.mpr fun hupper => ?_
  rw [isUpper_iff] at hupper
  rw [isWordChar_iff] at h
  omega

theorem toLower_of_isWordChar (h : isWordChar c = true) : c.toLower = c :=
  Char.toLower_eq_of_not_isUpper (by rw [isUpper_of_isWordChar h, Bool.not_eq_true])

theorem isUpper_toUpper (h : c.isLower = true) : c.toUpper.isUpper = true := by
  rw [Char.isUpper_toUpper_eq_isAlpha, Char.isAlpha, h, Bool.or_true]

theorem isLower_toLower (h : c.isUpper = true) : c.toLower.isLower = true := by
  rw [Char.isLower_toLower_eq_isAlpha, Char.isAlpha, h, Bool.true_or]

end

/-! ## Words -/

/-- A word of a key: small letters and digits of ASCII, a letter first. -/
structure IsWord (w : Text) : Prop where
  front : ∃ c ∈ w.head?, c.isLower = true
  chars : ∀ c ∈ w, isWordChar c = true

instance (w : Text) : Decidable (IsWord w) :=
  decidable_of_iff ((∃ c ∈ w.head?, c.isLower = true) ∧ ∀ c ∈ w, isWordChar c = true)
    ⟨fun h => ⟨h.1, h.2⟩, fun h => ⟨h.front, h.chars⟩⟩

/-- A list of words, at least one. -/
structure AreWords (words : List Text) : Prop where
  nonempty : words ≠ []
  all : ∀ w ∈ words, IsWord w

/-- A word is a small letter with characters of words behind it. -/
theorem isWord_cons_iff {c : Char} {cs : Text} :
    IsWord (c :: cs) ↔ c.isLower = true ∧ ∀ d ∈ cs, isWordChar d = true := by
  constructor
  · rintro ⟨⟨d, hd, hlower⟩, hchars⟩
    cases hd
    exact ⟨hlower, (List.forall_mem_cons.mp hchars).2⟩
  · rintro ⟨hlower, hcs⟩
    exact ⟨⟨c, rfl, hlower⟩, List.forall_mem_cons.mpr ⟨isWordChar_of_isLower hlower, hcs⟩⟩

/-- A word has a first letter, and that is a small one. -/
theorem IsWord.exists_cons {w : Text} (h : IsWord w) :
    ∃ c cs, w = c :: cs ∧ c.isLower = true ∧ ∀ d ∈ cs, isWordChar d = true := by
  obtain ⟨c, hc, -⟩ := h.front
  obtain ⟨cs, rfl⟩ := List.head?_eq_some_iff.mp hc
  exact ⟨c, cs, rfl, isWord_cons_iff.mp h⟩

/-- Characters of words are in small letters already. -/
theorem map_toLower_of_chars {s : Text} (h : ∀ c ∈ s, isWordChar c = true) :
    s.map Char.toLower = s :=
  (List.map_congr_left fun c hc => toLower_of_isWordChar (h c hc)).trans (List.map_id s)

/-- Capitalising a word changes its first letter alone. -/
theorem capitalize_cons {c : Char} {cs : Text} (hc : c.isLower = true)
    (hcs : ∀ d ∈ cs, isWordChar d = true) : Text.capitalize (c :: cs) = c.toUpper :: cs := by
  have hascii : ∀ d, isWordChar d = true → d.toNat < 0x80 := fun d hd =>
    lt_of_isAlphanum (isAlphanum_of_isWordChar hd)
  rw [Text.capitalize, titleForm, if_pos (hascii c (isWordChar_of_isLower hc)),
    Text.lowerFrom_of_ascii fun d hd => hascii d (hcs d hd), map_toLower_of_chars hcs,
    List.singleton_append]

/-- Lowering undoes capitalising. -/
theorem map_toLower_capitalize {w : Text} (h : IsWord w) :
    (Text.capitalize w).map Char.toLower = w := by
  obtain ⟨c, cs, rfl, hc, hcs⟩ := h.exists_cons
  rw [capitalize_cons hc hcs, List.map_cons, Char.toLower_toUpper_eq_toLower,
    ← List.map_cons, map_toLower_of_chars h.chars]

/-- A word with a capital in front still has letters and digits only. -/
theorem isAlphanum_of_mem_capitalize {w : Text} (h : IsWord w) :
    ∀ d ∈ Text.capitalize w, d.isAlphanum = true := by
  obtain ⟨c, cs, rfl, hc, hcs⟩ := h.exists_cons
  rw [capitalize_cons hc hcs, List.forall_mem_cons]
  exact ⟨isAlphanum_of_isUpper (isUpper_toUpper hc), fun d hd =>
    isAlphanum_of_isWordChar (hcs d hd)⟩

/-! ## Dividing at capital letters -/

/-- Underscores are put in character by character. -/
theorem divided_append (s t : Text) : divided (s ++ t) = divided s ++ divided t := by
  induction s with
  | nil => rfl
  | cons c s ih =>
    rw [List.cons_append, divided, divided, ih]
    split <;> rfl

/-- Nothing is put into a word. -/
theorem divided_of_chars {s : Text} (h : ∀ c ∈ s, isWordChar c = true) : divided s = s := by
  induction s with
  | nil => rfl
  | cons c s ih =>
    obtain ⟨hc, hs⟩ := List.forall_mem_cons.mp h
    rw [divided, if_neg (by rw [isUpper_of_isWordChar hc]; decide), ih hs]

/-- An underscore goes before a capitalised word, and none into it. -/
theorem divided_capitalize {w : Text} (h : IsWord w) :
    divided (Text.capitalize w) = '_' :: Text.capitalize w := by
  obtain ⟨c, cs, rfl, hc, hcs⟩ := h.exists_cons
  rw [capitalize_cons hc hcs, divided, if_pos (isUpper_toUpper hc), divided_of_chars hcs]

/-- Each capital gets an underscore in front. -/
theorem divided_flatMap_capitalize {ws : List Text} (h : ∀ w ∈ ws, IsWord w) :
    divided (ws.flatMap Text.capitalize) = ws.flatMap fun w => '_' :: Text.capitalize w := by
  induction ws with
  | nil => rfl
  | cons w ws ih =>
    obtain ⟨hw, hws⟩ := List.forall_mem_cons.mp h
    rw [List.flatMap_cons, List.flatMap_cons, divided_append, divided_capitalize hw, ih hws]

/-! ## The two spellings of some words -/

/-- The spelling of words in camel case. -/
def camelOf : List Text → Text
  | [] => []
  | w :: ws => w ++ ws.flatMap Text.capitalize

/-- The spelling of words with underscores. -/
def snakeOf (words : List Text) : Text :=
  Text.join ['_'] words

/-- The camel case of a key is that of its fields. -/
theorem camel_eq_camelOf (key : Text) : camel key = camelOf (Text.fields '_' key) := by
  rw [camel]
  cases Text.fields '_' key <;> rfl

/-- Words joined by underscores are found again. -/
theorem fields_snakeOf {words : List Text} (h : AreWords words) :
    Text.fields '_' (snakeOf words) = words := by
  refine Text.fields_join (fun w hw hmem => ?_) h.nonempty
  exact absurd ((h.all w hw).chars '_' hmem) (by decide)

/-- From the spelling with underscores to that in camel case. -/
theorem camel_snakeOf {words : List Text} (h : AreWords words) :
    camel (snakeOf words) = camelOf words := by
  rw [camel_eq_camelOf, fields_snakeOf h]

/-- In small letters, capitalised words with an underscore before each are spelled with
underscores. -/
theorem lower_append_flatMap {w : Text} {ws : List Text} (hw : IsWord w)
    (hws : ∀ u ∈ ws, IsWord u) :
    Text.lower (w ++ ws.flatMap fun u => '_' :: Text.capitalize u) = snakeOf (w :: ws) := by
  have hascii : ∀ d ∈ w ++ ws.flatMap fun u => '_' :: Text.capitalize u, d.toNat < 0x80 := by
    intro d hd
    rcases List.mem_append.mp hd with hd | hd
    · exact lt_of_isAlphanum (isAlphanum_of_isWordChar (hw.chars d hd))
    · obtain ⟨u, hu, hd⟩ := List.mem_flatMap.mp hd
      rcases List.mem_cons.mp hd with rfl | hd
      · decide
      · exact lt_of_isAlphanum (isAlphanum_of_mem_capitalize (hws u hu) d hd)
  have hword : ∀ u ∈ ws, ('_' :: Text.capitalize u).map Char.toLower = ['_'] ++ u := by
    intro u hu
    rw [List.map_cons, map_toLower_capitalize (hws u hu)]
    rfl
  -- within ASCII no letter looks at its neighbours, so each word is lowered by itself
  calc Text.lower (w ++ ws.flatMap fun u => '_' :: Text.capitalize u)
      = w ++ ws.flatMap fun u => ('_' :: Text.capitalize u).map Char.toLower := by
        rw [Text.lower, Text.lowerFrom_of_ascii hascii, List.map_append,
          map_toLower_of_chars hw.chars, List.map_flatMap]
    _ = w ++ ws.flatMap (['_'] ++ ·) := by
        rw [List.flatMap_congr hword]
    _ = snakeOf (w :: ws) := (Text.join_cons ['_'] w ws).symm

/-- From the spelling in camel case to that with underscores. -/
theorem snake_camelOf {words : List Text} (h : AreWords words) :
    snake (camelOf words) = snakeOf words := by
  obtain ⟨w, ws, rfl⟩ := List.exists_cons_of_ne_nil h.nonempty
  obtain ⟨hw, hws⟩ := List.forall_mem_cons.mp h.all
  obtain ⟨c, cs, rfl, -, hcs⟩ := hw.exists_cons
  -- before the first letter nothing is divided off, so the search begins behind it
  have hdivided : divided (cs ++ ws.flatMap Text.capitalize) =
      cs ++ ws.flatMap fun u => '_' :: Text.capitalize u := by
    rw [divided_append, divided_of_chars hcs, divided_flatMap_capitalize hws]
  rw [camelOf, List.cons_append, snake, hdivided, ← List.cons_append,
    lower_append_flatMap hw hws]

/-! ## Keys that spell words -/

/-- A key in camel case: letters and digits of ASCII, a small letter first. -/
structure IsCamel (key : Text) : Prop where
  front : ∃ c ∈ key.head?, c.isLower = true
  chars : ∀ c ∈ key, c.isAlphanum = true

instance (key : Text) : Decidable (IsCamel key) :=
  decidable_of_iff ((∃ c ∈ key.head?, c.isLower = true) ∧ ∀ c ∈ key, c.isAlphanum = true)
    ⟨fun h => ⟨h.1, h.2⟩, fun h => ⟨h.front, h.chars⟩⟩

/-- A key with underscores: what they separate are words. -/
def IsSnake (key : Text) : Prop :=
  ∀ w ∈ Text.fields '_' key, IsWord w

instance (key : Text) : Decidable (IsSnake key) :=
  inferInstanceAs (Decidable (∀ w ∈ Text.fields '_' key, IsWord w))

/-- Letters and digits are a rest of a word, and then words that each begin with a capital
letter. -/
theorem exists_words_of_alphanum {s : Text} (h : ∀ c ∈ s, c.isAlphanum = true) :
    ∃ (rest : Text) (ws : List Text), (∀ c ∈ rest, isWordChar c = true) ∧
      (∀ w ∈ ws, IsWord w) ∧ s = rest ++ ws.flatMap Text.capitalize := by
  induction s with
  | nil => exact ⟨[], [], by simp, by simp, rfl⟩
  | cons c s ih =>
    obtain ⟨hc, hs⟩ := List.forall_mem_cons.mp h
    obtain ⟨rest, ws, hrest, hws, rfl⟩ := ih hs
    by_cases hupper : c.isUpper = true
    · -- what follows is the rest of the word that this letter begins
      have hword := isWord_cons_iff.mpr ⟨isLower_toLower hupper, hrest⟩
      refine ⟨[], (c.toLower :: rest) :: ws, by simp, List.forall_mem_cons.mpr ⟨hword, hws⟩, ?_⟩
      rw [List.flatMap_cons, capitalize_cons (isLower_toLower hupper) hrest,
        Char.toUpper_toLower_eq_toUpper,
        Char.toUpper_eq_of_not_isLower (Char.not_isLower_of_isUpper hupper)]
      rfl
    · rw [isAlphanum_eq, Bool.or_eq_true, or_iff_right hupper] at hc
      exact ⟨c :: rest, ws, List.forall_mem_cons.mpr ⟨hc, hrest⟩, hws, rfl⟩

/-- The keys in camel case are the spellings of words in it. -/
theorem isCamel_iff {key : Text} : IsCamel key ↔ ∃ words, AreWords words ∧ key = camelOf words := by
  constructor
  · rintro ⟨⟨c, hc, hlower⟩, hchars⟩
    obtain ⟨s, rfl⟩ := List.head?_eq_some_iff.mp hc
    -- the first letter begins the first word, with the rest of it right behind
    obtain ⟨rest, ws, hrest, hws, rfl⟩ :=
      exists_words_of_alphanum (List.forall_mem_cons.mp hchars).2
    have hword := isWord_cons_iff.mpr ⟨hlower, hrest⟩
    exact ⟨(c :: rest) :: ws, ⟨List.cons_ne_nil _ _, List.forall_mem_cons.mpr ⟨hword, hws⟩⟩, rfl⟩
  · rintro ⟨words, hwords, rfl⟩
    obtain ⟨w, ws, rfl⟩ := List.exists_cons_of_ne_nil hwords.nonempty
    obtain ⟨hw, hws⟩ := List.forall_mem_cons.mp hwords.all
    refine ⟨?_, fun c hc => ?_⟩
    · obtain ⟨c, cs, rfl, hlower, -⟩ := hw.exists_cons
      exact ⟨c, rfl, hlower⟩
    · rcases List.mem_append.mp hc with hc | hc
      · exact isAlphanum_of_isWordChar (hw.chars c hc)
      · obtain ⟨u, hu, hc⟩ := List.mem_flatMap.mp hc
        exact isAlphanum_of_mem_capitalize (hws u hu) c hc

/-- The keys with underscores are the spellings of words with them. -/
theorem isSnake_iff {key : Text} : IsSnake key ↔ ∃ words, AreWords words ∧ key = snakeOf words := by
  constructor
  · intro h
    refine ⟨Text.fields '_' key, ⟨Text.fields_ne_nil '_' key, h⟩, ?_⟩
    rw [snakeOf, Text.join_eq_intercalate, Text.fields_eq_splitOn, List.intercalate_splitOn]
  · rintro ⟨words, hwords, rfl⟩
    rw [IsSnake, fields_snakeOf hwords]
    exact hwords.all

/-- A key with a capital letter is no key with underscores. -/
theorem snake_ne {key : Text} (h : ∃ c ∈ key, c.isUpper = true) (k : Text) : snake k ≠ key := by
  rintro rfl
  obtain ⟨c, hc, hupper⟩ := h
  have hlower : c.isUpper = false := by
    cases k with
    | nil => cases hc
    | cons d rest => exact Text.isUpper_of_mem_lower hc
  rw [hlower] at hupper
  exact Bool.noConfusion hupper

/-! ## There and back -/

section

variable {key : Text}

/-- A key in camel case gets an underscored spelling. -/
theorem isSnake_snake (h : IsCamel key) : IsSnake (snake key) := by
  obtain ⟨words, hwords, rfl⟩ := isCamel_iff.mp h
  exact isSnake_iff.mpr ⟨words, hwords, snake_camelOf hwords⟩

/-- A key with underscores gets a spelling in camel case. -/
theorem isCamel_camel (h : IsSnake key) : IsCamel (camel key) := by
  obtain ⟨words, hwords, rfl⟩ := isSnake_iff.mp h
  exact isCamel_iff.mpr ⟨words, hwords, camel_snakeOf hwords⟩

/-- **From camel case and back** nothing is lost. -/
theorem camel_snake (h : IsCamel key) : camel (snake key) = key := by
  obtain ⟨words, hwords, rfl⟩ := isCamel_iff.mp h
  rw [snake_camelOf hwords, camel_snakeOf hwords]

/-- **From underscores and back** nothing is lost. -/
theorem snake_camel (h : IsSnake key) : snake (camel key) = key := by
  obtain ⟨words, hwords, rfl⟩ := isSnake_iff.mp h
  rw [camel_snakeOf hwords, snake_camelOf hwords]

end

/-- **The two spellings of a key are interchangeable.** Writing a key in camel case with
underscores leads to a key with underscores, and back in camel case it is the key again; the
same holds the other way round. So what a record holds under one spelling of such a key is
read under the other, if it is no null. -/
theorem spellings_interchange :
    (∀ key, IsCamel key → IsSnake (snake key) ∧ camel (snake key) = key) ∧
      (∀ key, IsSnake key → IsCamel (camel key) ∧ snake (camel key) = key) ∧
      ∀ key, IsCamel key → ∀ v, v ≠ Json.null → ∀ default,
        Record.option [(snake key, v)] key default none = v ∧
          Record.option [(key, v)] (snake key) default none = v := by
  refine ⟨fun key h => ⟨isSnake_snake h, camel_snake h⟩,
    fun key h => ⟨isCamel_camel h, snake_camel h⟩, fun key h v hv default => ⟨?_, ?_⟩⟩
  · have hmem : snake key ∈ spellings key := by simp [spellings]
    exact Record.option_singleton hmem hv default
  · -- camel case is what the key with underscores is looked up in next
    have hmem : key ∈ spellings (snake key) := by simp [spellings, camel_snake h]
    exact Record.option_singleton hmem hv default

/-- A run of capitals is as many words, one of them with a digit in it. -/
theorem spellings_interchange_capitals :
    let key := "maxH1URLsX".toList
    let spelled := "max_h1_u_r_ls_x".toList
    IsCamel key ∧ IsSnake spelled ∧ Json.int 2 ≠ .null ∧
      snake key = spelled ∧ camel (snake key) = key ∧ snake (camel spelled) = spelled ∧
      Record.option [(spelled, .int 2)] key .null none = .int 2 ∧
      Record.option [(key, .int 2)] spelled .null none = .int 2 := by
  intro key spelled
  obtain ⟨hcamel, hsnake, hoption⟩ := spellings_interchange
  have hkey : IsCamel key := by decide +kernel
  have hspelled : IsSnake spelled := by decide +kernel
  have heq : snake key = spelled := by decide +kernel
  have hv : Json.int 2 ≠ .null := fun h => nomatch h
  have hread := hoption key hkey (.int 2) hv .null
  rw [heq] at hread
  exact ⟨hkey, hspelled, hv, heq, (hcamel key hkey).2, (hsnake spelled hspelled).2, hread⟩

end TemplateTidy.Key
