import TemplateTidy.Proofs.Markup.Legible

/-!
# Atoms inside of tags

Two readers go over a start tag, one to find its bracket and one to divide it into
attributes. Both take comments and templating tags for atoms. What the first passes over
as a unit is printed as it stands if the second takes it for a unit too.

They do not always agree. The first begins at the name of the tag, the second behind it, so
that quotes and atoms in the name lead them apart. The first looks for the end of a comment
behind the whole of its opener, the second behind the first two characters of it, so that
the dashes of `<!-->` and `<!--->` are opener and closer at once to the second only. And the
last bracket of an unfinished tag is taken for the bracket of the tag, be it the end of an
atom. A tag that has nothing of this is *plainly written*, and all atoms in it come through.

Main result: `StartTag.render_keeps_atoms`.
-/

namespace TemplateTidy

namespace Tag

/-! ## What the reader passes over -/

/-- The reader stands in an atom. -/
def Spot.inAtom : Spot → Bool
  | .atom _ _ | .leaving _ => true
  | _ => false

/-- The atoms that the reader who looks for the bracket passes over on its way. `read` is
what it has read of the atom it stands in, the last character first. -/
def atoms (templates : Bool) : Spot → Text → Text → List Text
  | _, _, [] => []
  | spot, read, c :: cs =>
    if spot = .plain ∧ c = '>' then []
    else
      let next := spot.next templates 4 c cs
      if next.inAtom then atoms templates next (c :: read) cs
      else (if spot.inAtom then [(c :: read).reverse] else []) ++ atoms templates next [] cs

/-- The text ends with the bracket that the reader looks for. -/
def isBracketed (templates : Bool) : Spot → Text → Bool
  | _, [] => false
  | spot, c :: cs =>
    if spot = .plain ∧ c = '>' then cs.isEmpty
    else isBracketed templates (spot.next templates 4 c cs) cs

/-- In an atom it makes no difference where the end of a comment would be looked for. -/
theorem next_eq_of_inAtom {spot : Spot} (h : spot.inAtom = true) (templates : Bool)
    (lead lead' : Nat) (c : Char) (s : Text) :
    spot.next templates lead c s = spot.next templates lead' c s := by
  cases spot with
  | plain => cases h
  | quoted q => cases h
  | atom skip closer => cases skip <;> rfl
  | leaving n =>
    cases n with
    | zero => rfl
    | succ n => cases n <;> rfl

theorem ne_plain_of_inAtom {spot : Spot} (h : spot.inAtom = true) : spot ≠ .plain := by
  rintro rfl
  cases h

/-- A reader passes over a text that another one follows, and stands in an atom before each
of its characters. -/
def Stays (templates : Bool) : Spot → Text → Text → Spot → Prop
  | spot, [], _, spot' => spot = spot'
  | spot, c :: s, rest, spot' =>
    spot.inAtom = true ∧ Stays templates (spot.next templates 4 c (s ++ rest)) s rest spot'

section

variable {templates : Bool} {spot spot' spot'' : Spot} {s t rest read : Text}

/-- A reader that stays through one text and then through another stays through both. -/
theorem Stays.append (h : Stays templates spot s (t ++ rest) spot')
    (h' : Stays templates spot' t rest spot'') : Stays templates spot (s ++ t) rest spot'' := by
  induction s generalizing spot with
  | nil =>
    rw [show spot = spot' from h]
    exact h'
  | cons c s ih =>
    rw [List.cons_append, Stays, List.append_assoc]
    exact ⟨h.1, ih h.2⟩

/-- An atom that the reader leaves is one of those it passes over. -/
theorem atoms_of_stays (h : Stays templates spot s rest .plain) (hs : s ≠ []) :
    atoms templates spot read (s ++ rest) =
      (read.reverse ++ s) :: atoms templates .plain [] rest := by
  induction s generalizing spot read with
  | nil => exact absurd rfl hs
  | cons c s ih =>
    obtain ⟨hin, hrest⟩ := h
    rw [List.cons_append, atoms, if_neg fun h => ne_plain_of_inAtom hin h.1]
    cases s with
    | nil =>
      have hplain : spot.next templates 4 c ([] ++ rest) = .plain := hrest
      rw [hplain, hin]
      simp [Spot.inAtom]
    | cons d s =>
      rw [if_pos hrest.1, ih hrest (List.cons_ne_nil d s)]
      simp

/-- What a reader stays through does not hold the bracket it looks for. -/
theorem isBracketed_of_stays (h : Stays templates spot s rest spot') :
    isBracketed templates spot (s ++ rest) = isBracketed templates spot' rest := by
  induction s generalizing spot with
  | nil => rw [show spot = spot' from h, List.nil_append]
  | cons c s ih =>
    rw [List.cons_append, isBracketed, if_neg fun heq => ne_plain_of_inAtom h.1 heq.1, ih h.2]

/-- To the reader of attributes, an atom belongs to one word. -/
theorem words_of_stays (h : Stays templates spot s rest spot') :
    words templates spot (s ++ rest) =
      ⟨s ++ (words templates spot' rest).front, (words templates spot' rest).others⟩ := by
  induction s generalizing spot with
  | nil => rw [show spot = spot' from h, List.nil_append, List.nil_append]
  | cons c s ih =>
    rw [List.cons_append, words, if_neg fun heq => ne_plain_of_inAtom h.1 heq.1,
      next_eq_of_inAtom h.1 templates 2 4, ih h.2]
    rfl

end

/-! ## The ends of atoms -/

section

variable {templates : Bool} {closer : Text} {n : Nat}

/-- The closer does not occur in the text and itself before it comes. -/
def Awaits (closer : Text) : Text → Prop
  | [] => True
  | c :: s => closer.isPrefixOf (c :: s ++ closer) = false ∧ Awaits closer s

/-- A reader that is leaving an atom stays for as many characters as it has to. -/
theorem stays_leaving {s : Text} (hs : s.length = n + 1) (rest : Text) :
    Stays templates (.leaving (n + 1)) s rest .plain := by
  induction n generalizing s with
  | zero =>
    obtain ⟨c, rfl⟩ := List.length_eq_one_iff.mp hs
    exact ⟨rfl, rfl⟩
  | succ n ih =>
    obtain ⟨c, s, rfl⟩ := List.exists_cons_of_length_eq_add_one hs
    exact ⟨rfl, ih (Nat.succ.inj hs)⟩

/-- A closer behind a text is no longer than both. -/
theorem length_le_behind (closer s : Text) : closer.length ≤ (s ++ closer).length := by
  rw [List.length_append]
  exact Nat.le_add_left ..

/-- In an atom, a reader goes through the first closer, whatever follows it. -/
theorem stays_awaits (hcloser : closer.length = n + 2) {s : Text} (hs : Awaits closer s)
    (rest : Text) : Stays templates (.atom 0 closer) (s ++ closer) rest .plain := by
  induction s with
  | nil =>
    obtain ⟨c, tail, rfl⟩ := List.exists_cons_of_length_eq_add_one hcloser
    have hlength : tail.length = n + 1 := Nat.succ.inj hcloser
    have hpre : (c :: tail).isPrefixOf (c :: (tail ++ rest)) = true :=
      List.isPrefixOf_iff_prefix.mpr (List.prefix_append (c :: tail) rest)
    refine ⟨rfl, ?_⟩
    rw [Spot.next, if_pos hpre, List.length_cons, Nat.add_sub_cancel, hlength]
    exact stays_leaving hlength rest
  | cons c s ih =>
    -- what follows the closer is too far away to matter
    have hpre : closer.isPrefixOf (c :: (s ++ closer ++ rest)) = false := by
      rw [← hs.1, ← isPrefixOf_append_of_length_le (length_le_behind closer (c :: s)) rest]
      rfl
    rw [List.cons_append, Stays, Spot.next, hpre, if_neg Bool.false_ne_true]
    exact ⟨rfl, ih hs.2⟩

/-- In an atom there is a first closer, or the reader stays there for good. -/
theorem exists_awaits_or (closer s : Text) :
    (∃ m rest, s = m ++ closer ++ rest ∧ Awaits closer m) ∨
    ∀ read, atoms templates (.atom 0 closer) read s = [] := by
  induction s with
  | nil => exact .inr fun _ => rfl
  | cons c s ih =>
    by_cases hpre : closer.isPrefixOf (c :: s) = true
    · obtain ⟨rest, hrest⟩ := List.isPrefixOf_iff_prefix.mp hpre
      exact .inl ⟨[], rest, hrest.symm, trivial⟩
    · rcases ih with ⟨m, rest, rfl, hm⟩ | hnone
      · refine .inl ⟨c :: m, rest, rfl, ?_, hm⟩
        rw [Bool.not_eq_true] at hpre
        rw [← hpre, ← isPrefixOf_append_of_length_le (length_le_behind closer (c :: m)) rest]
        rfl
      · refine .inr fun read => ?_
        rw [atoms, if_neg (by simp), Spot.next, if_neg hpre]
        exact hnone _

end

/-! ## Atoms at the front of a text -/

/-- The opener and the closer of the comment share a dash, so that to one reader the comment
ends there. -/
def IsShort (atom : Text) : Prop :=
  "<!-->".toList <+: atom ∨ "<!--->".toList <+: atom

instance (atom : Text) : Decidable (IsShort atom) :=
  inferInstanceAs (Decidable (_ ∨ _))

/-- A text is an atom to both readers, whatever follows: the first that the one passes over,
and, unless it is short, part of the first word of the other. -/
structure IsAtom (templates : Bool) (atom : Text) : Prop where
  getLast?_eq : atom.getLast? = some '>'
  atoms_eq (rest : Text) :
    atoms templates .plain [] (atom ++ rest) = atom :: atoms templates .plain [] rest
  isBracketed_eq (rest : Text) :
    isBracketed templates .plain (atom ++ rest) = isBracketed templates .plain rest
  words_eq (hlong : ¬ IsShort atom) (rest : Text) : words templates .plain (atom ++ rest) =
    ⟨atom ++ (words templates .plain rest).front, (words templates .plain rest).others⟩

section

variable {templates : Bool}

/-- A reader that enters an atom with its first character and stays there to its end. -/
theorem isAtom_of_stays {c : Char} {s : Text} (hc : c ≠ '>') (hblank : isBlank c = false)
    (hs : s.getLast? = some '>') {spot : Spot}
    (hnext : ∀ rest, Spot.next templates 4 .plain c (s ++ rest) = spot)
    (hstays : ∀ rest, Stays templates spot s rest .plain)
    (hwords : ¬ IsShort (c :: s) → ∀ rest,
      Stays templates (Spot.next templates 2 .plain c (s ++ rest)) s rest .plain) :
    IsAtom templates (c :: s) := by
  obtain ⟨front, rfl⟩ := List.getLast?_eq_some_iff.mp hs
  have hne : front ++ ['>'] ≠ [] := by simp
  refine ⟨List.getLast?_concat (l := c :: front), fun rest => ?_, fun rest => ?_,
    fun hlong rest => ?_⟩
  · have hin : spot.inAtom = true := by
      obtain ⟨d, s, hd⟩ := List.exists_cons_of_ne_nil hne
      have hstays := hstays rest
      rw [hd] at hstays
      exact hstays.1
    rw [List.cons_append, atoms, if_neg fun h => hc h.2, hnext, if_pos hin,
      atoms_of_stays (hstays rest) hne]
    rfl
  · rw [List.cons_append, isBracketed, if_neg fun h => hc h.2, hnext,
      isBracketed_of_stays (hstays rest)]
  · rw [List.cons_append, words, if_neg (by simp [hblank]), words_of_stays (hwords hlong rest)]
    rfl

/-- A comment is an atom. -/
theorem isAtom_comment {m : Text} (hm : Awaits "-->".toList m) :
    IsAtom templates ("<!--".toList ++ (m ++ "-->".toList)) := by
  have hclose : ∀ rest, Stays templates (.atom 0 "-->".toList) (m ++ "-->".toList) rest .plain :=
    fun rest => stays_awaits rfl hm rest
  have hnext : ∀ lead rest, Spot.next templates lead .plain '<'
      ("!--".toList ++ (m ++ "-->".toList) ++ rest) = .atom (lead - 1) "-->".toList :=
    fun _ _ => rfl
  refine isAtom_of_stays (c := '<') (s := "!--".toList ++ (m ++ "-->".toList)) (by decide)
    (by decide) ?_ (hnext 4) (fun rest => ?_) fun hlong rest => ?_
  · rw [← List.append_assoc, List.getLast?_append]
    rfl
  · -- three more characters of the opener are passed over unseen
    exact Stays.append (s := "!--".toList) ⟨rfl, rfl, rfl, rfl⟩ (hclose rest)
  · -- one character is, and then no closer comes before the one that is awaited
    have hdashes : Awaits "-->".toList ("--".toList ++ m) := by
      rw [IsShort, not_or] at hlong
      refine ⟨?_, ?_, hm⟩
      · rw [← Bool.not_eq_true, List.isPrefixOf_iff_prefix]
        rintro ⟨t, ht⟩
        exact hlong.1 ⟨t, congrArg ("<!".toList ++ ·) ht⟩
      · rw [← Bool.not_eq_true, List.isPrefixOf_iff_prefix]
        rintro ⟨t, ht⟩
        exact hlong.2 ⟨t, congrArg ("<!-".toList ++ ·) ht⟩
    rw [hnext]
    exact Stays.append (s := "!".toList) ⟨rfl, rfl⟩ (stays_awaits rfl hdashes rest)

/-- A templating tag is an atom. -/
theorem isAtom_template {m : Text} (hm : Awaits "?>".toList m) :
    IsAtom true ("<?".toList ++ (m ++ "?>".toList)) := by
  have hstays : ∀ rest,
      Stays true (.atom 1 "?>".toList) ('?' :: (m ++ "?>".toList)) rest .plain :=
    fun rest => ⟨rfl, stays_awaits rfl hm rest⟩
  refine isAtom_of_stays (c := '<') (s := '?' :: (m ++ "?>".toList)) (by decide) (by decide) ?_
    (fun _ => rfl) hstays fun _ => hstays
  rw [← List.cons_append, List.getLast?_append]
  rfl

/-- An atom begins at the front of the text. -/
def Opens (templates : Bool) (s : Text) : Prop :=
  "<!--".toList <+: s ∨ templates = true ∧ "<?".toList <+: s

/-- An atom still begins with more text behind. -/
theorem Opens.append {s : Text} (h : Opens templates s) (t : Text) : Opens templates (s ++ t) :=
  h.imp (·.trans (List.prefix_append s t)) (·.imp_right (·.trans (List.prefix_append s t)))

/-- Where an atom begins, it stands whole, or the reader passes over no atom any more. -/
theorem Opens.exists_isAtom_or {s : Text} (h : Opens templates s) :
    (∃ atom rest, s = atom ++ rest ∧ IsAtom templates atom) ∨ atoms templates .plain [] s = [] := by
  rcases h with ⟨t, rfl⟩ | ⟨rfl, t, rfl⟩
  · rcases exists_awaits_or "-->".toList t with ⟨m, rest, rfl, hm⟩ | hnone
    · exact .inl ⟨_, rest, (List.append_assoc ..).symm, isAtom_comment hm⟩
    · exact .inr (hnone "--!<".toList)
  · rcases exists_awaits_or "?>".toList t with ⟨m, rest, rfl, hm⟩ | hnone
    · exact .inl ⟨_, rest, (List.append_assoc ..).symm, isAtom_template hm⟩
    · exact .inr (hnone "?<".toList)

/-- Outside of quotes the reader goes on plainly where neither a quote nor an atom begins. -/
theorem next_of_not_opens {lead : Nat} {c : Char} {s : Text} (hquote : c ≠ '"')
    (hapostrophe : c ≠ '\'') (h : ¬ Opens templates (c :: s)) :
    Spot.next templates lead .plain c s = .plain := by
  rw [Opens, not_or, not_and] at h
  have hcomment : "<!--".toList.isPrefixOf (c :: s) = false := by
    rw [← Bool.not_eq_true, List.isPrefixOf_iff_prefix]
    exact h.1
  have htemplate : (templates && "<?".toList.isPrefixOf (c :: s)) = false := by
    rw [← Bool.not_eq_true, Bool.and_eq_true, List.isPrefixOf_iff_prefix, not_and]
    exact h.2
  rw [Spot.next, beq_false_of_ne hquote, beq_false_of_ne hapostrophe, hcomment, htemplate]
  rfl

end

/-! ## Atoms and words -/

/-- A word is part of a word when something is put in front of the first. -/
theorem Words.exists_toList {w : Words} {v : Text} (hv : v ∈ w.toList) (s : Text) :
    ∃ v' ∈ Words.toList ⟨s ++ w.front, w.others⟩, v <:+: v' := by
  obtain ⟨front, others⟩ := w
  rw [Words.toList] at hv
  by_cases hfront : front.isEmpty = true
  · -- the first word was empty, so the word is one of the others
    rw [if_pos hfront] at hv
    refine ⟨v, ?_, List.infix_refl v⟩
    rw [Words.toList]
    split
    · exact hv
    · exact List.mem_cons_of_mem _ hv
  · rw [if_neg hfront] at hv
    have hne : ¬ (s ++ front).isEmpty = true := by
      simp only [List.isEmpty_iff, List.append_eq_nil_iff, not_and] at hfront ⊢
      exact fun _ => hfront
    rw [Words.toList, if_neg hne]
    rcases List.mem_cons.mp hv with rfl | hv
    · exact ⟨s ++ v, List.mem_cons_self .., (List.suffix_append s v).isInfix⟩
    · exact ⟨v, List.mem_cons_of_mem _ hv, List.infix_refl v⟩

/-- What may stand behind the attributes of a tag: a slash, white space, the bracket. -/
def IsTail (s : Text) : Prop :=
  ∀ c ∈ s, c = '/' ∨ isBlank c = true ∨ c = '>'

instance (s : Text) : Decidable (IsTail s) :=
  inferInstanceAs (Decidable (∀ c ∈ s, _))

/-- Outside of atoms, with a quote or without. -/
def Spot.Outside (spot : Spot) : Prop :=
  spot = .plain ∨ spot = .quoted '"' ∨ spot = .quoted '\''

/-- Outside of atoms is not in one. -/
theorem Spot.Outside.inAtom_eq {spot : Spot} (h : spot.Outside) : spot.inAtom = false := by
  rcases h with rfl | rfl | rfl <;> rfl

/-- Outside of atoms there may be a quote open. -/
theorem Spot.Outside.plain_or_quoted {spot : Spot} (h : spot.Outside) :
    spot = .plain ∨ ∃ q, spot = .quoted q := by
  rcases h with rfl | rfl | rfl
  · exact .inl rfl
  · exact .inr ⟨_, rfl⟩
  · exact .inr ⟨_, rfl⟩

/-- Outside of atoms, the reader goes on to the next character. -/
theorem atoms_cons {templates : Bool} {spot spot' : Spot} (hspot : spot.Outside)
    (hspot' : spot'.Outside) {c : Char} {s : Text} (hopen : ¬ (spot = .plain ∧ c = '>'))
    (hnext : spot.next templates 4 c s = spot') :
    atoms templates spot [] (c :: s) = atoms templates spot' [] s := by
  simp only [atoms, if_neg hopen, hnext, hspot.inAtom_eq, hspot'.inAtom_eq, Bool.false_eq_true,
    if_false, List.nil_append]

/-- The tail of a tag holds no atom. -/
theorem IsTail.atoms_eq_nil {templates : Bool} {s : Text} (hs : IsTail s) {spot : Spot}
    (hspot : spot.Outside) : atoms templates spot [] s = [] := by
  induction s with
  | nil => rfl
  | cons c s ih =>
    obtain ⟨hc, hs⟩ := List.forall_mem_cons.mp hs
    have hne : c ≠ '"' ∧ c ≠ '\'' ∧ c ≠ '<' := by
      refine ⟨?_, ?_, ?_⟩ <;> rintro rfl <;> exact absurd hc (by decide)
    -- the tail of a tag has nothing that moves a reader from outside of atoms
    have hnext : spot.next templates 4 c s = spot := by
      rcases hspot with rfl | rfl | rfl
      · exact next_plain hne.1 hne.2.1 hne.2.2 s
      · rw [Spot.next, beq_false_of_ne hne.1]
        rfl
      · rw [Spot.next, beq_false_of_ne hne.2.1]
        rfl
    by_cases hopen : spot = .plain ∧ c = '>'
    · rw [atoms, if_pos hopen]
    · rw [atoms_cons hspot hspot hopen hnext, ih hs]

/-- A text before the tail of a tag is written so that both readers see the same atoms in it:
none of them is short, and the bracket in the tail, if there is one, ends it and closes the
tag. -/
structure Legibly (templates : Bool) (spot : Spot) (s tail : Text) : Prop where
  long : ∀ atom ∈ atoms templates spot [] (s ++ tail), ¬ IsShort atom
  ends : '>' ∈ tail → '>' ∉ tail.dropLast ∧ isBracketed templates spot (s ++ tail) = true

/-- What the one reader passes over on its way to the bracket lies within a word of the
other. -/
def Covers (templates : Bool) (spot : Spot) (s tail : Text) : Prop :=
  ∀ atom ∈ atoms templates spot [] (s ++ tail), ∃ w ∈ (words templates spot s).toList, atom <:+: w

section

variable {templates : Bool} {spot spot' : Spot} {c : Char} {s tail atom : Text}

/-- Where there are no atoms, all of them are covered. -/
theorem covers_of_atoms_eq_nil (h : atoms templates spot [] (s ++ tail) = []) :
    Covers templates spot s tail := by
  rw [Covers, h]
  exact fun _ hatom => nomatch hatom

/-- A text stays legible without a first character that does not open an atom. -/
theorem Legibly.cons (h : Legibly templates spot (c :: s) tail) (hspot : spot.Outside)
    (hspot' : spot'.Outside) (hopen : ¬ (spot = .plain ∧ c = '>'))
    (hnext : spot.next templates 4 c (s ++ tail) = spot') : Legibly templates spot' s tail where
  long := by
    have hlong := h.long
    rwa [List.cons_append, atoms_cons hspot hspot' hopen hnext] at hlong
  ends hbracket := by
    have hends := h.ends hbracket
    rwa [List.cons_append, isBracketed, if_neg hopen, hnext] at hends

/-- Outside of atoms, both readers go on to the next character. -/
theorem Covers.cons (h : Covers templates spot' s tail) (hspot : spot.Outside)
    (hspot' : spot'.Outside) (hopen : ¬ (spot = .plain ∧ c = '>'))
    (hnext : spot.next templates 4 c (s ++ tail) = spot')
    (hwords : ∀ v ∈ (words templates spot' s).toList,
      ∃ w ∈ (words templates spot (c :: s)).toList, v <:+: w) :
    Covers templates spot (c :: s) tail := by
  rw [Covers, List.cons_append, atoms_cons hspot hspot' hopen hnext]
  intro atom hatom
  obtain ⟨v, hv, hinfix⟩ := h atom hatom
  obtain ⟨w, hw, hinfix'⟩ := hwords v hv
  exact ⟨w, hw, hinfix.trans hinfix'⟩

/-- A character that is not white space between words belongs to one. -/
theorem exists_words_cons (hblank : ¬ (spot = .plain ∧ isBlank c = true))
    (hnext : spot.next templates 2 c s = spot') :
    ∀ v ∈ (words templates spot' s).toList,
      ∃ w ∈ (words templates spot (c :: s)).toList, v <:+: w := by
  intro v hv
  rw [words, if_neg hblank, hnext]
  exact Words.exists_toList hv [c]

/-- An atom does not reach into the tail of a tag. -/
theorem IsAtom.prefix_of_legibly (hatom : IsAtom templates atom) {rest : Text}
    (hsplit : s ++ tail = atom ++ rest) (h : Legibly templates .plain s tail) :
    ∃ t, s = atom ++ t ∧ rest = t ++ tail := by
  rcases List.append_eq_append_iff.mp hsplit with ⟨b, hatom', htail⟩ | hinside
  · rcases List.eq_nil_or_concat b with rfl | ⟨b, c, rfl⟩
    · exact ⟨[], by simpa using hatom'.symm, by simpa using htail.symm⟩
    · -- the atom would end with the bracket of the tail, which closes the tag
      rw [List.concat_eq_append] at hatom' htail
      obtain rfl : c = '>' := by
        have hlast := hatom.getLast?_eq
        rwa [hatom', ← List.append_assoc, List.getLast?_concat, Option.some.injEq] at hlast
      obtain ⟨hdrop, hclosed⟩ := h.ends (by simp [htail])
      have hrest : rest ≠ [] := by
        rintro rfl
        rw [hsplit, hatom.isBracketed_eq] at hclosed
        exact Bool.noConfusion hclosed
      refine absurd ?_ hdrop
      rw [htail, List.dropLast_append_of_ne_nil hrest]
      simp
  · exact hinside

/-- A text stays legible without an atom at its front. -/
theorem Legibly.of_atom (hatom : IsAtom templates atom)
    (h : Legibly templates .plain (atom ++ s) tail) : Legibly templates .plain s tail where
  long := by
    have hlong := h.long
    rw [List.append_assoc, hatom.atoms_eq] at hlong
    exact (List.forall_mem_cons.mp hlong).2
  ends hbracket := by
    have hends := h.ends hbracket
    rwa [List.append_assoc, hatom.isBracketed_eq] at hends

/-- Both readers pass over an atom. -/
theorem Covers.append_atom (hatom : IsAtom templates atom) (hlong : ¬ IsShort atom)
    (h : Covers templates .plain s tail) : Covers templates .plain (atom ++ s) tail := by
  rw [Covers, List.append_assoc, hatom.atoms_eq, hatom.words_eq hlong]
  refine List.forall_mem_cons.mpr ⟨?_, fun a ha => ?_⟩
  · have hne : ¬ (atom ++ (words templates .plain s).front).isEmpty = true := by
      have hlast := hatom.getLast?_eq
      rintro hempty
      rw [List.isEmpty_iff, List.append_eq_nil_iff] at hempty
      rw [hempty.1] at hlast
      cases hlast
    refine ⟨atom ++ (words templates .plain s).front, ?_, (List.prefix_append ..).isInfix⟩
    rw [Words.toList, if_neg hne]
    exact List.mem_cons_self ..
  · obtain ⟨v, hv, hinfix⟩ := h a ha
    obtain ⟨w, hw, hinfix'⟩ := Words.exists_toList hv atom
    exact ⟨w, hw, hinfix.trans hinfix'⟩

/-- Where no atom begins, both readers go on outside of atoms. -/
theorem Spot.Outside.exists_next (hspot : spot.Outside)
    (hopens : spot = .plain → ¬ Opens templates (c :: s ++ tail)) :
    ∃ spot' : Spot, spot'.Outside ∧ spot.next templates 4 c (s ++ tail) = spot' ∧
      ∀ v ∈ (words templates spot' s).toList,
        ∃ w ∈ (words templates spot (c :: s)).toList, v <:+: w := by
  rcases hspot.plain_or_quoted with rfl | ⟨q, rfl⟩
  · by_cases hquote : c = '"' ∨ c = '\''
    · -- both readers enter the quote
      have hnext : ∀ lead t, Spot.next templates lead .plain c t = .quoted c := by
        rcases hquote with rfl | rfl <;> exact fun _ _ => rfl
      have hletter : isBlank c = false := by
        rcases hquote with rfl | rfl <;> decide
      refine ⟨.quoted c, ?_, hnext 4 _, exists_words_cons (by simp [hletter]) (hnext 2 _)⟩
      rcases hquote with rfl | rfl
      · exact .inr (.inl rfl)
      · exact .inr (.inr rfl)
    · rw [not_or] at hquote
      have hwhole := hopens rfl
      have hfront : ¬ Opens templates (c :: s) := fun h => hwhole (h.append tail)
      refine ⟨.plain, .inl rfl, next_of_not_opens hquote.1 hquote.2 hwhole, ?_⟩
      by_cases hblank : isBlank c = true
      · -- white space divides words
        intro v hv
        refine ⟨v, ?_, List.infix_refl v⟩
        rw [words, if_pos ⟨rfl, hblank⟩]
        exact hv
      · exact exists_words_cons (fun h => hblank h.2)
          (next_of_not_opens hquote.1 hquote.2 hfront)
  · -- in a quote, both readers wait for its end
    have hinside : ∀ p : Prop, ¬ (Spot.quoted q = .plain ∧ p) := by
      rintro p ⟨h, -⟩
      cases h
    by_cases hc : c = q
    · have hnext : ∀ lead t, Spot.next templates lead (.quoted q) c t = .plain := by
        intro lead t
        rw [Spot.next, if_pos (beq_iff_eq.mpr hc)]
      exact ⟨.plain, .inl rfl, hnext 4 _, exists_words_cons (hinside _) (hnext 2 _)⟩
    · have hnext : ∀ lead t, Spot.next templates lead (.quoted q) c t = .quoted q := by
        intro lead t
        rw [Spot.next, if_neg (by simpa using hc)]
      exact ⟨.quoted q, hspot, hnext 4 _, exists_words_cons (hinside _) (hnext 2 _)⟩

end

/-- **Both readers see the same atoms** in a text that is legibly written. -/
theorem Legibly.covers {templates : Bool} {spot : Spot} {s tail : Text}
    (h : Legibly templates spot s tail) (hspot : spot.Outside) (htail : IsTail tail) :
    Covers templates spot s tail := by
  -- an atom is passed over in one step, so the induction is on the length
  induction hn : s.length using Nat.strong_induction_on generalizing s spot with
  | _ n ih =>
  cases s with
  | nil => exact covers_of_atoms_eq_nil (htail.atoms_eq_nil hspot)
  | cons c s =>
    by_cases hopen : spot = .plain ∧ c = '>'
    · refine covers_of_atoms_eq_nil ?_
      rw [List.cons_append, atoms, if_pos hopen]
    by_cases hopens : spot = .plain ∧ Opens templates (c :: s ++ tail)
    · -- an atom opens here: if it is closed it is passed over, and otherwise nothing follows
      obtain ⟨rfl, hopens⟩ := hopens
      rcases hopens.exists_isAtom_or with ⟨atom, rest, hsplit, hatom⟩ | hnone
      · obtain ⟨t, hs, rfl⟩ := hatom.prefix_of_legibly hsplit h
        have hlong : ¬ IsShort atom := by
          refine h.long atom ?_
          rw [hsplit, hatom.atoms_eq]
          exact List.mem_cons_self ..
        have hlength : t.length < n := by
          have hpos : 0 < atom.length := by
            obtain ⟨front, hfront⟩ := List.getLast?_eq_some_iff.mp hatom.getLast?_eq
            simp [hfront]
          rw [← hn, hs, List.length_append]
          omega
        rw [hs] at h ⊢
        exact (ih t.length hlength (h.of_atom hatom) (.inl rfl) rfl).append_atom hatom hlong
      · exact covers_of_atoms_eq_nil hnone
    · -- a character of its own
      obtain ⟨spot', hspot', hnext, hwords⟩ :=
        hspot.exists_next fun hplain h => hopens ⟨hplain, h⟩
      have hrest := ih s.length (by simp [← hn]) (h.cons hspot hspot' hopen hnext) hspot' rfl
      exact hrest.cons hspot hspot' hopen hnext hwords

/-! ## The name of a tag -/

/-- Where the reader who looks for the bracket stands behind a text that another one
follows. -/
def spotAfter (templates : Bool) : Spot → Text → Text → Spot
  | spot, [], _ => spot
  | spot, c :: s, rest => spotAfter templates (spot.next templates 4 c (s ++ rest)) s rest

section

variable {templates : Bool} {s : Text}

/-- A reader that is leaving an atom has so many characters fewer to go. -/
theorem spotAfter_leaving {n : Nat} (h : s.length < n) (rest : Text) :
    spotAfter templates (.leaving n) s rest = .leaving (n - s.length) := by
  induction s generalizing n with
  | nil => rfl
  | cons c s ih =>
    obtain ⟨m, rfl⟩ : ∃ m, n = m + 2 := ⟨n - 2, by simp at h; omega⟩
    have hlength : s.length < m + 1 := by
      rw [List.length_cons] at h
      omega
    rw [spotAfter, Spot.next, ih hlength, List.length_cons]
    congr 1
    omega

/-- An atom is not left before a bracket comes. -/
theorem spotAfter_atom_ne {closer : Text} (hcloser : closer.getLast? = some '>') (hs : '>' ∉ s)
    (skip : Nat) (rest : Text) : spotAfter templates (.atom skip closer) s rest ≠ .plain := by
  induction s generalizing skip with
  | nil =>
    intro h
    cases h
  | cons c s ih =>
    have htail : '>' ∉ s := fun h => hs (List.mem_cons_of_mem c h)
    cases skip with
    | succ skip => exact ih htail skip
    | zero =>
      rw [spotAfter, Spot.next]
      split
      · rename_i hpre
        rw [List.isPrefixOf_iff_prefix] at hpre
        -- the closer reaches beyond the text
        have hlength : (c :: s).length < closer.length := by
          by_contra hle
          have hinside := List.prefix_of_prefix_length_le hpre (List.prefix_append (c :: s) rest)
            (Nat.le_of_not_lt hle)
          exact hs (hinside.subset (List.mem_of_getLast? hcloser))
        rw [List.length_cons] at hlength
        rw [spotAfter_leaving (by omega)]
        intro h
        cases h
      · exact ih htail 0

/-- From outside of atoms, the reader stays there or enters one. -/
theorem outside_next {spot : Spot} (hspot : spot.Outside) (c : Char) (s : Text) :
    (spot.next templates 4 c s).Outside ∨
    ∃ skip closer, spot.next templates 4 c s = .atom skip closer ∧ closer.getLast? = some '>' := by
  rcases hspot.plain_or_quoted with rfl | ⟨q, rfl⟩
  · rw [Spot.next]
    split
    · rename_i hquote
      rw [Bool.or_eq_true, beq_iff_eq, beq_iff_eq] at hquote
      rcases hquote with rfl | rfl
      · exact .inl (.inr (.inl rfl))
      · exact .inl (.inr (.inr rfl))
    · split
      · exact .inr ⟨_, _, rfl, rfl⟩
      · split
        · exact .inr ⟨_, _, rfl, rfl⟩
        · exact .inl (.inl rfl)
  · rw [Spot.next]
    split
    · exact .inl (.inl rfl)
    · exact .inl hspot

/-- A text without a bracket holds no atom, if the reader stands outside of quotes and atoms
behind it. -/
theorem atoms_append_of_spotAfter {spot : Spot} (hspot : spot.Outside) (hs : '>' ∉ s)
    {rest : Text} (h : spotAfter templates spot s rest = .plain) :
    atoms templates spot [] (s ++ rest) = atoms templates .plain [] rest ∧
      isBracketed templates spot (s ++ rest) = isBracketed templates .plain rest := by
  induction s generalizing spot with
  | nil =>
    rw [show spot = .plain from h]
    exact ⟨rfl, rfl⟩
  | cons c s ih =>
    have htail : '>' ∉ s := fun h => hs (List.mem_cons_of_mem c h)
    have hopen : ¬ (spot = .plain ∧ c = '>') := by
      rintro ⟨-, rfl⟩
      exact hs (List.mem_cons_self ..)
    rw [spotAfter] at h
    rcases outside_next hspot c (s ++ rest) with hnext | ⟨skip, closer, hatom, hcloser⟩
    · obtain ⟨hatoms, hclosed⟩ := ih hnext htail h
      rw [List.cons_append, atoms_cons hspot hnext hopen rfl, isBracketed, if_neg hopen]
      exact ⟨hatoms, hclosed⟩
    · -- an atom is not left without its bracket
      rw [hatom] at h
      exact absurd h (spotAfter_atom_ne hcloser htail skip rest)

end

/-! ## Atoms within the tag -/

section

variable {templates : Bool}

/-- In an atom a tag goes on for the characters that are passed over unseen. -/
theorem le_length_atom (templates : Bool) (closer : Text) {n : Nat} {s : Text}
    (h : n ≤ s.length) : n ≤ length templates (.atom n closer) s := by
  induction s generalizing n with
  | nil => exact h
  | cons c s ih =>
    cases n with
    | zero => exact Nat.zero_le _
    | succ n =>
      have hrest := ih (Nat.le_of_succ_le_succ h)
      rw [length, if_neg (by simp), Spot.next]
      omega

/-- A tag does not end before the atom that the reader is leaving. -/
theorem le_length_leaving (templates : Bool) {n : Nat} {s : Text} (h : n ≤ s.length) :
    n ≤ length templates (.leaving n) s := by
  induction s generalizing n with
  | nil => exact h
  | cons c s ih =>
    match n with
    | 0 => exact Nat.zero_le _
    | 1 =>
      rw [length, if_neg (by simp)]
      omega
    | n + 2 =>
      have hrest := ih (n := n + 1) (Nat.le_of_succ_le_succ h)
      rw [length, if_neg (by simp), Spot.next]
      omega

/-- Whether a reader enters or leaves an atom is decided within the tag. -/
theorem next_take (spot : Spot) (c : Char) (s : Text) :
    spot.next templates 4 c (s.take (length templates (spot.next templates 4 c s) s)) =
      spot.next templates 4 c s := by
  have hcut : ∀ (pat : Text) (n : Nat), (pat.isPrefixOf (c :: s) = true → pat.length ≤ n + 1) →
      pat.isPrefixOf (c :: s.take n) = pat.isPrefixOf (c :: s) := by
    intro pat n hlength
    rw [← List.take_succ_cons, Bool.eq_iff_iff, List.isPrefixOf_iff_prefix,
      List.isPrefixOf_iff_prefix, List.prefix_take_iff]
    rw [List.isPrefixOf_iff_prefix] at hlength
    exact and_iff_left_of_imp hlength
  cases spot with
  | plain =>
    -- only the opener of an atom is looked for in what follows, and where it stands the tag
    -- is long enough to hold it
    by_cases hquote : (c == '"' || c == '\'') = true
    · rw [Spot.next, Spot.next, if_pos hquote, if_pos hquote]
    · by_cases hopens : Opens templates (c :: s)
      · rcases hopens with ⟨t, ht⟩ | ⟨rfl, t, ht⟩
        · obtain ⟨rfl, rfl⟩ := List.cons.inj ht
          obtain ⟨n, hn⟩ := Nat.exists_eq_add_of_le' (le_length_atom templates "-->".toList
            (n := 3) (s := "!--".toList ++ t) (by simp))
          exact congrArg (fun n => Spot.next templates 4 .plain '<' (("!--".toList ++ t).take n)) hn
        · obtain ⟨rfl, rfl⟩ := List.cons.inj ht
          obtain ⟨n, hn⟩ := Nat.exists_eq_add_of_le' (le_length_atom true "?>".toList
            (n := 1) (s := "?".toList ++ t) (by simp))
          exact congrArg (fun n => Spot.next true 4 .plain '<' (("?".toList ++ t).take n)) hn
      · rw [Bool.or_eq_true, beq_iff_eq, beq_iff_eq, not_or] at hquote
        have hfront : ∀ n, ¬ Opens templates (c :: s.take n) := by
          intro n hfront
          have hwhole := hfront.append (s.drop n)
          rw [List.cons_append, List.take_append_drop] at hwhole
          exact hopens hwhole
        rw [next_of_not_opens hquote.1 hquote.2 (hfront _),
          next_of_not_opens hquote.1 hquote.2 hopens]
  | quoted q => rfl
  | atom skip closer =>
    cases skip with
    | succ skip => rfl
    | zero =>
      -- the closer that is looked for lies within the tag if it is there at all
      rw [Spot.next, Spot.next, hcut]
      intro hpre
      rw [if_pos hpre]
      have hlength := (List.isPrefixOf_iff_prefix.mp hpre).length_le
      rw [List.length_cons] at hlength
      have hrest := le_length_leaving templates (n := closer.length - 1) (s := s) (by omega)
      omega
  | leaving n =>
    cases n with
    | zero => rfl
    | succ n => cases n <;> rfl

/-- The atoms on the way to the bracket lie within the tag. -/
theorem atoms_take_length (spot : Spot) (read s : Text) :
    atoms templates spot read (s.take (length templates spot s)) = atoms templates spot read s := by
  induction s generalizing spot read with
  | nil => rfl
  | cons c s ih =>
    rw [length]
    split
    · rename_i hclose
      rw [List.take_succ_cons, atoms, if_pos hclose, atoms, if_pos hclose]
    · rename_i hopen
      rw [Nat.add_comm, List.take_succ_cons, atoms, atoms, if_neg hopen, if_neg hopen, next_take]
      dsimp only
      rw [ih, ih]

/-- An atom stands in the text, maybe with what has been read of it before. -/
theorem infix_of_mem_atoms {spot : Spot} {read s atom : Text}
    (h : atom ∈ atoms templates spot read s) : atom <:+: read.reverse ++ s := by
  induction s generalizing spot read with
  | nil => cases h
  | cons c s ih =>
    have hread : (c :: read).reverse ++ s = read.reverse ++ c :: s := by simp
    rw [atoms] at h
    split at h
    · cases h
    dsimp only at h
    split at h
    · -- the reader is in an atom, which grows by one character
      rw [← hread]
      exact ih h
    · rcases List.mem_append.mp h with h | h
      · split at h
        · rw [List.mem_singleton.mp h, ← hread]
          exact (List.prefix_append ..).isInfix
        · cases h
      · exact (ih h).trans (List.suffix_append (read.reverse ++ [c]) s |>.isInfix.trans (by simp))

end

/-! ## Atoms in print -/

/-- Words are joined to attributes, and none is lost. -/
theorem exists_mem_rejoinAfter {word w : Text} {ws : List Text} (h : w ∈ word :: ws) :
    ∃ a ∈ rejoinAfter word ws, w <:+: a := by
  induction ws generalizing word w with
  | nil =>
    rw [List.mem_singleton.mp h]
    exact ⟨word, List.mem_singleton_self word, List.infix_refl word⟩
  | cons v ws ih =>
    rw [rejoinAfter]
    -- the word that follows is joined on, or begins an attribute of its own
    split
    · rcases List.mem_cons.mp h with rfl | h
      · obtain ⟨a, ha, hinfix⟩ := ih (List.mem_cons_self (a := w ++ v))
        exact ⟨a, ha, (List.prefix_append w v).isInfix.trans hinfix⟩
      · rcases List.mem_cons.mp h with rfl | h
        · obtain ⟨a, ha, hinfix⟩ := ih (List.mem_cons_self (a := word ++ w))
          exact ⟨a, ha, (List.suffix_append word w).isInfix.trans hinfix⟩
        · exact ih (List.mem_cons_of_mem _ h)
    · rcases List.mem_cons.mp h with rfl | h
      · exact ⟨w, List.mem_cons_self .., List.infix_refl w⟩
      · obtain ⟨a, ha, hinfix⟩ := ih h
        exact ⟨a, List.mem_cons_of_mem _ ha, hinfix⟩

/-- A word of the attributes lies within one of them. -/
theorem exists_mem_attributes {templates : Bool} {s w : Text}
    (h : w ∈ (words templates .plain s).toList) : ∃ a ∈ attributes templates s, w <:+: a := by
  rw [attributes]
  cases hwords : (words templates .plain s).toList with
  | nil =>
    rw [hwords] at h
    cases h
  | cons v ws =>
    rw [hwords] at h
    exact exists_mem_rejoinAfter h

/-- Each attribute stands in the attributes as they are printed. -/
theorem Spread.infix_of_mem {attrs : List Text} {out a : Text} (h : Spread attrs out)
    (ha : a ∈ attrs) : a <:+: out := by
  induction h with
  | nil => cases ha
  | @cons pad hpad hne b as out h ih =>
    rcases List.mem_cons.mp ha with rfl | ha
    · exact List.infix_append pad a out
    · exact (ih ha).trans (List.suffix_append (pad ++ b) out).isInfix

end Tag

namespace StartTag

/-- Both readers take the same stretches of the tag for atoms. -/
structure ReadsPlainly (o : MarkupOptions) (tag : StartTag) : Prop where
  /-- Behind the name, the reader who looks for the bracket is in no quote and no atom. -/
  name : Tag.spotAfter o.templates .plain (Tag.writtenName tag.raw)
    (tag.raw.drop (1 + (Tag.writtenName tag.raw).length)) = .plain
  /-- No comment begins with `<!-->` or `<!--->`. -/
  long : ∀ atom ∈ Tag.atoms o.templates .plain [] (tag.raw.drop 1), ¬ Tag.IsShort atom
  /-- A bracket at the end is the bracket of the tag. -/
  closed : tag.raw.getLast? = some '>' → Tag.isBracketed o.templates .plain (tag.raw.drop 1) = true

/-- Each attribute stands in the tag as it is printed. -/
theorem infix_render_of_mem {o : MarkupOptions} (ho : o.IndentsBlank) {tag : StartTag}
    (hkept : tag.isKept o = false) {a : Text}
    (ha : a ∈ Tag.attributes o.templates (attributeText tag.raw)) (depth : Int) (column : Nat) :
    a <:+: tag.render o depth column := by
  obtain ⟨attrs, pad, hspread, -, -, hout⟩ := (renders_render ho hkept depth column).eq
  have hmem : a ∈ (parts o.templates tag.raw).attributes := by
    simpa only [parts_eq] using ha
  rw [hout, List.append_assoc, List.append_assoc]
  exact (hspread.infix_of_mem hmem).trans (List.infix_append ..)

/-- The bracket at the end of a tag. -/
def bracket (raw : Text) : Text :=
  if Text.endsWith ['>'] raw then ['>'] else []

/-- A start tag is its name, its attributes, and the tail with the bracket. -/
theorem eq_name_append {raw rest : Text} (hraw : raw = '<' :: rest) :
    raw = '<' :: (Tag.writtenName raw ++
      (attributeText raw ++ (Chunk.textOf (tail raw) ++ bracket raw))) := by
  have hparts := head_append_inner hraw
  rw [← attributeText_append_tail] at hparts
  rw [bracket]
  split at hparts
  · rename_i hclosed
    rw [if_pos hclosed]
    simpa using hparts.symm
  · rename_i hclosed
    rw [if_neg hclosed]
    simpa using (List.append_cancel_right hparts).symm

/-- Before the bracket, behind the attributes, stand a slash and white space. -/
theorem mem_textOf_tail {raw : Text} {c : Char} (hc : c ∈ Chunk.textOf (tail raw)) :
    c = '/' ∨ isBlank c = true := by
  unfold tail at hc
  split at hc
  · have hmem : c ∈ '/' :: Text.trailing (inner raw) := by simpa [Chunk.text] using hc
    rcases List.mem_cons.mp hmem with rfl | hblank
    · exact .inl rfl
    · exact .inr ((Text.blank_trailing _).of_mem hblank)
  · cases hc

/-- What is written behind the attributes of a tag is a tail. -/
theorem isTail_tail (raw : Text) : Tag.IsTail (Chunk.textOf (tail raw) ++ bracket raw) := by
  intro c hc
  rcases List.mem_append.mp hc with hc | hc
  · exact (mem_textOf_tail hc).imp_right .inl
  · rw [bracket] at hc
    split at hc
    · exact .inr (.inr (List.mem_singleton.mp hc))
    · cases hc

/-- The only bracket in the tail of a tag is the one at its end. -/
theorem not_mem_textOf_tail (raw : Text) : '>' ∉ Chunk.textOf (tail raw) := by
  intro h
  exact absurd (mem_textOf_tail h) (by decide)

/-- A tag that reads plainly is legibly written behind its name, with the same atoms. -/
theorem ReadsPlainly.legibly {o : MarkupOptions} {tag : StartTag} (h : tag.ReadsPlainly o)
    {rest : Text} (hraw : tag.raw = '<' :: rest) :
    Tag.atoms o.templates .plain [] (tag.raw.drop 1) = Tag.atoms o.templates .plain []
        (attributeText tag.raw ++ (Chunk.textOf (tail tag.raw) ++ bracket tag.raw)) ∧
      Tag.Legibly o.templates .plain (attributeText tag.raw)
        (Chunk.textOf (tail tag.raw) ++ bracket tag.raw) := by
  have hwhole : tag.raw.drop 1 = Tag.writtenName tag.raw ++
      (attributeText tag.raw ++ (Chunk.textOf (tail tag.raw) ++ bracket tag.raw)) :=
    congrArg (List.drop 1) (eq_name_append hraw)
  have hname : '>' ∉ Tag.writtenName tag.raw := by
    rw [Tag.writtenName]
    exact fun hmem => absurd (List.mem_takeWhile_imp hmem) (by decide)
  have hspot := h.name
  rw [← List.drop_drop, hwhole, List.drop_left] at hspot
  obtain ⟨hatoms, hclosed⟩ := Tag.atoms_append_of_spotAfter (.inl rfl) hname hspot
  rw [← hwhole] at hatoms hclosed
  refine ⟨hatoms, by rw [← hatoms]; exact h.long, fun hbracket => ?_⟩
  -- the bracket in the tail is the last character of the tag
  have hends : Text.endsWith ['>'] tag.raw = true := by
    by_contra hends
    rw [bracket, if_neg hends, List.append_nil] at hbracket
    exact not_mem_textOf_tail _ hbracket
  refine ⟨?_, ?_⟩
  · rw [bracket, if_pos hends, List.dropLast_concat]
    exact not_mem_textOf_tail _
  · rw [← hclosed]
    exact h.closed (Tag.endsWith_singleton.mp hends)

/-- The atoms of a tag that reads plainly are printed as they stand. -/
theorem ReadsPlainly.infix_render {o : MarkupOptions} (ho : o.IndentsBlank) {tag : StartTag}
    (h : tag.ReadsPlainly o) {rest : Text} (hraw : tag.raw = '<' :: rest)
    (hkept : tag.isKept o = false) {atom : Text}
    (hatom : atom ∈ Tag.atoms o.templates .plain [] (tag.raw.drop 1)) (depth : Int)
    (column : Nat) : atom <:+: tag.render o depth column := by
  obtain ⟨hatoms, hlegibly⟩ := h.legibly hraw
  rw [hatoms] at hatom
  obtain ⟨w, hw, hinword⟩ := hlegibly.covers (.inl rfl) (isTail_tail _) atom hatom
  obtain ⟨a, ha, hinattribute⟩ := Tag.exists_mem_attributes hw
  exact hinword.trans (hinattribute.trans (infix_render_of_mem ho hkept ha depth column))

end StartTag

/-! ## Where tags are read -/

namespace Item

/-- A start tag goes up to the bracket that closes it. -/
theorem startTag_of_scan {o : MarkupOptions} {s : Text} {before after : List Item}
    {tag : StartTag} (h : scan o s = before ++ startTag tag :: after) :
    tag = startTagOf o (tag.raw ++ rawOf after) (tagLength o (tag.raw ++ rawOf after)) := by
  obtain ⟨front, done, todo, rest, -, -, hread⟩ :=
    exists_markup?_of_scan h (fun _ => Item.noConfusion)
  -- nothing is read before a tag
  have hdone : done = [] := by
    rcases (fronts_markup? hread).before_eq with hdone | ⟨_, _, _, -, hbody, -⟩
    · exact hdone
    · cases hbody
  rw [hdone, List.nil_append, List.nil_append] at hread
  have hmem : .startTag tag ∈ scan o s := by simp [h]
  obtain ⟨c, r, hraw, hc⟩ := formed_of_mem_scan hmem
  have hfront : rawOf (.startTag tag :: after) = '<' :: c :: (r ++ rawOf after) := by
    rw [rawOf, List.flatMap_cons, raw, hraw]
    rfl
  have htext : tag.raw ++ rawOf after = '<' :: c :: (r ++ rawOf after) := hfront
  rw [hfront, markup?_element o hc, Option.some.injEq] at hread
  rw [htext]
  generalize '<' :: c :: (r ++ rawOf after) = t at hread
  rw [element] at hread
  dsimp only at hread
  split at hread
  · cases (List.cons.inj hread).1
  · split at hread
    · split at hread
      · exact (startTag.inj (List.cons.inj hread).1).symm
      · exact (startTag.inj (List.cons.inj hread).1).symm
    · exact (startTag.inj (List.cons.inj hread).1).symm

/-- What the reader passes over on its way to the bracket lies within the tag. -/
theorem atoms_of_scan {o : MarkupOptions} {s : Text} {before after : List Item}
    {tag : StartTag} (h : scan o s = before ++ startTag tag :: after) :
    Tag.atoms o.templates .plain [] ((tag.raw ++ rawOf after).drop 1) =
      Tag.atoms o.templates .plain [] (tag.raw.drop 1) := by
  have hraw : tag.raw = (tag.raw ++ rawOf after).take (tagLength o (tag.raw ++ rawOf after)) :=
    congrArg StartTag.raw (startTag_of_scan h)
  have hdrop : tag.raw.drop 1 = ((tag.raw ++ rawOf after).drop 1).take
      (Tag.length o.templates .plain ((tag.raw ++ rawOf after).drop 1)) := by
    refine (congrArg (List.drop 1) hraw).trans ?_
    rw [tagLength, List.drop_take, Nat.add_sub_cancel_left]
  rw [hdrop, Tag.atoms_take_length]

end Item

/-- **Atoms are opaque inside of tags.** In a tag that reads plainly, or that is copied as it
stands, whatever comment or templating tag is passed over as a unit on the way to the bracket
is printed as it stands, at every depth and column. -/
theorem StartTag.render_keeps_atoms {o : MarkupOptions} (ho : o.IndentsBlank) {s : Text}
    {before after : List Item} {tag : StartTag}
    (hscan : Item.scan o s = before ++ Item.startTag tag :: after)
    (htag : tag.isKept o = true ∨ tag.ReadsPlainly o) {atom : Text}
    (hatom : atom ∈ Tag.atoms o.templates .plain [] ((tag.raw ++ Item.rawOf after).drop 1))
    (depth : Int) (column : Nat) : atom <:+: tag.render o depth column := by
  have hmem : .startTag tag ∈ Item.scan o s := by simp [hscan]
  obtain ⟨c, r, hraw, -⟩ := Item.formed_of_mem_scan hmem
  rw [Item.atoms_of_scan hscan] at hatom
  cases hkept : tag.isKept o with
  | true =>
    rw [render_of_isKept hkept]
    exact (Tag.infix_of_mem_atoms hatom).trans (List.drop_suffix 1 tag.raw).isInfix
  | false =>
    have hplainly : tag.ReadsPlainly o := htag.resolve_left (by simp [hkept])
    exact hplainly.infix_render ho hraw hkept hatom depth column

/-- The white space in the atom stays, that around the attributes does not. -/
theorem StartTag.render_keeps_atoms_quoted :
    let tag : StartTag := ⟨"<p  <? \"a  >\" ?>  b=x>".toList, "p".toList, false, false⟩
    Item.scan {} "<p  <? \"a  >\" ?>  b=x>y".toList = [] ++ Item.startTag tag :: [.text ['y']] ∧
      tag.render {} 0 0 = "<p <? \"a  >\" ?> b=x>".toList ∧
      "<? \"a  >\" ?>".toList <:+: tag.render {} 0 0 := by
  intro tag
  have hscan : Item.scan {} "<p  <? \"a  >\" ?>  b=x>y".toList =
      [] ++ Item.startTag tag :: [.text ['y']] := by
    decide +kernel
  have hplainly : tag.ReadsPlainly {} := ⟨by decide +kernel, by decide +kernel, by decide +kernel⟩
  refine ⟨hscan, by decide +kernel, ?_⟩
  exact StartTag.render_keeps_atoms (by decide) hscan (.inr hplainly) (by decide +kernel) 0 0

/-- An atom is not printed as it stands if it is a comment whose opener and closer share
dashes, if it begins in the name of the tag, or if its bracket is taken for that of the tag. -/
theorem StartTag.render_divides_atoms :
    let expand : MarkupOptions := { wrapAttributes := "force-expand-multiline".toList }
    let short : StartTag := ⟨"<p <!-->  a -->b>".toList, "p".toList, false, false⟩
    let named : StartTag := ⟨"<p<?  x ?>>".toList, "p<?".toList, false, false⟩
    let unclosed : StartTag := ⟨"<p a <?  x ?>".toList, "p".toList, false, false⟩
    (Item.scan {} short.raw = [.startTag short] ∧
        "<!-->  a -->".toList ∈ Tag.atoms true .plain [] (short.raw.drop 1) ∧
        short.render {} 0 0 = "<p <!--> a -->b>".toList ∧
        ¬ "<!-->  a -->".toList <:+: short.render {} 0 0) ∧
      (Item.scan {} named.raw = [.startTag named] ∧
        "<?  x ?>".toList ∈ Tag.atoms true .plain [] (named.raw.drop 1) ∧
        ¬ "<?  x ?>".toList <:+: named.render {} 0 0) ∧
      (Item.scan expand unclosed.raw = [.startTag unclosed] ∧
        "<?  x ?>".toList ∈ Tag.atoms true .plain [] (unclosed.raw.drop 1) ∧
        ¬ "<?  x ?>".toList <:+: unclosed.render expand 0 0) := by
  decide +kernel

end TemplateTidy
