import TemplateTidy.Proofs.Markup.Stroke
import TemplateTidy.Proofs.Text.Lowering

/-!
# Closed items

An item that ends with a bracket of its own is read as itself whatever follows it. The
readers of items look ahead, but nothing they look for goes on behind a bracket: the
openers and closers of comments, the name of an element and the white space around it
end there at the latest. So what a reader finds up to the bracket it finds with any
text behind it.

That an item is closed is told by a test: it is read as itself where a space follows.

Main result: `Item.markup?_closed`.
-/

namespace TemplateTidy

/-! ## Looking for texts up to a bracket -/

namespace Text

/-- Whether a text that has no bracket but at its end begins another one can be told from
what the latter has up to a bracket. -/
theorem isPrefixOf_bracket {pat : Text} (hpat : '>' ∉ pat.dropLast) (u t t' : Text) :
    pat.isPrefixOf (u ++ '>' :: t) = pat.isPrefixOf (u ++ '>' :: t') := by
  induction u generalizing pat with
  | nil =>
    -- a pattern of two characters or more does not begin with the bracket
    match pat with
    | [] => rfl
    | [p] => rfl
    | p :: q :: pat =>
      have hp : (p == '>') = false := by
        refine beq_false_of_ne ?_
        rintro rfl
        exact hpat (by simp)
      rw [List.nil_append, List.nil_append, List.isPrefixOf, List.isPrefixOf, hp]
      rfl
  | cons c u ih =>
    match pat with
    | [] => rfl
    | [p] => rfl
    | p :: q :: pat =>
      have hrest : '>' ∉ (q :: pat).dropLast := fun h => hpat (List.mem_cons_of_mem _ h)
      rw [List.cons_append, List.cons_append, List.isPrefixOf, List.isPrefixOf, ih hrest]

/-- What is found up to a bracket is found with anything behind the bracket. -/
theorem findFrom_bracket {pat : Text} (hpat : '>' ∉ pat.dropLast) {u t : Text} {i j : Nat}
    (h : findFrom pat i (u ++ '>' :: t) = some j) (hj : j ≤ i + u.length) (t' : Text) :
    findFrom pat i (u ++ '>' :: t') = some j := by
  induction u generalizing i with
  | nil =>
    rw [List.nil_append, findFrom] at h ⊢
    rw [← List.nil_append ('>' :: t'), isPrefixOf_bracket hpat [] t' t]
    split at h
    · rename_i hpre
      rw [List.nil_append, if_pos hpre, h]
    · -- found behind the bracket
      obtain ⟨m, rfl, -⟩ := findFrom_spec h
      simp only [List.length_nil] at hj
      omega
  | cons c u ih =>
    rw [List.cons_append, findFrom] at h ⊢
    rw [← List.cons_append, isPrefixOf_bracket hpat (c :: u) t' t, List.cons_append]
    split at h
    · rename_i hpre
      rw [if_pos hpre, h]
    · rename_i hpre
      rw [if_neg hpre]
      exact ih h (by simp only [List.length_cons] at hj; omega)

/-- Characters of a kind at the front end before a bracket that is not of this kind. -/
theorem takeWhile_bracket {p : Char → Bool} (hp : p '>' = false) (u t : Text) :
    (u ++ '>' :: t).takeWhile p = u.takeWhile p := by
  induction u with
  | nil => simp [hp]
  | cons c u ih => by_cases hc : p c <;> simp [hc, ih]

/-- White space is counted up to the bracket. -/
theorem blanks_bracket (u t : Text) : blanks (u ++ '>' :: t) = (u.takeWhile isBlank).length := by
  rw [blanks, leading_eq_length_takeWhile, takeWhile_bracket (by decide)]

end Text

/-! ## Brackets and letter case -/

/-- No other character is the same letter as the bracket. -/
theorem sameLetter_bracket {p : Char} (hp : p ≠ '>') : sameLetter p '>' = false := by
  have hbracket : smallLetter '>' = '>' := by decide
  have hpartners : ∀ e ∈ casePartners, 0x3E ∉ e.2 := by decide +kernel
  unfold sameLetter
  dsimp only
  rw [hbracket, Bool.or_eq_false_iff]
  constructor
  · exact beq_false_of_ne fun h => hp (eq_of_smallLetter (by decide) h.symm)
  · cases hlookup : casePartners.lookup (smallLetter p).toNat with
    | none => rfl
    | some ns =>
      obtain ⟨l₁, l₂, hsplit, -⟩ := List.lookup_eq_some_iff.mp hlookup
      have hmem := hpartners ((smallLetter p).toNat, ns) (by rw [hsplit]; simp)
      simpa using hmem

/-- Lowering makes no bracket. -/
theorem bracket_notMem_lower {s : Text} (hs : '>' ∉ s) : '>' ∉ Text.lower s := by
  intro h
  obtain ⟨c, hc, hform⟩ := Text.exists_of_mem_lower h
  rcases mem_lowForms hform with ⟨hsmall, -⟩ | hother
  · exact hs (eq_of_smallLetter (by decide) hsmall.symm ▸ hc)
  · exact absurd hother (by decide)

/-! ## Recognisers -/

namespace Recogniser

/-- What is recognised can be told from the text up to a bracket. -/
def Curbed (r : Recogniser) : Prop :=
  ∀ u t t', r (u ++ '>' :: t) = r (u ++ '>' :: t')

/-- What is recognised ends before the next bracket. -/
def Shy (r : Recogniser) : Prop :=
  ∀ u t n, r (u ++ '>' :: t) = some n → n ≤ u.length

/-- Two recognisers in a row look no further than the bracket, if the first one does not pass
it. -/
theorem Curbed.andThen {r r' : Recogniser} (h : Curbed r) (hshy : Shy r) (h' : Curbed r') :
    Curbed (andThen r r') := by
  intro u t t'
  unfold Recogniser.andThen
  rw [h u t' t]
  split
  · rename_i n hn
    have hle := hshy u t n hn
    rw [List.drop_append_of_le_length hle, List.drop_append_of_le_length hle, h' _ t t']
  · rfl

/-- A literal without a bracket, but at its end, looks no further than the bracket. -/
theorem curbed_literal {pat : Text} (hpat : '>' ∉ pat.dropLast) : Curbed (Text.literal pat) := by
  intro u t t'
  rw [Text.literal, Text.literal, Text.isPrefixOf_bracket hpat u t t']

/-- A literal without a bracket does not pass one. -/
theorem shy_literal {pat : Text} (hpat : '>' ∉ pat) : Shy (Text.literal pat) := by
  intro u t n hn
  rw [Text.literal] at hn
  split at hn
  · rename_i hpre
    rw [← Option.some.inj hn]
    by_contra hlt
    -- the bracket would have to be part of the literal
    have hpre' := List.isPrefixOf_iff_prefix.mp hpre
    have hu : u ++ ['>'] <+: pat := by
      refine List.prefix_of_prefix_length_le (show _ <+: u ++ '>' :: t from ⟨t, by simp⟩) hpre' ?_
      rw [List.length_append, List.length_singleton]
      omega
    exact hpat (hu.subset (by simp))
  · cases hn

/-- White space looks no further than the bracket. -/
theorem curbed_gap : Curbed (gap 0) := by
  intro u t t'
  simp only [gap, Text.blanks_bracket]

/-- White space does not pass a bracket. -/
theorem shy_gap : Shy (gap 0) := by
  intro u t n hn
  simp only [gap, Nat.zero_le, if_true, Text.blanks_bracket, Option.some.injEq] at hn
  rw [← hn]
  exact (List.takeWhile_prefix _).length_le

/-- Whether a text begins with a name shows before the bracket. -/
theorem beginsIgnoringCase_bracket {name : Text} (hname : ∀ p ∈ name, sameLetter p '>' = false)
    (u t : Text) :
    Text.beginsIgnoringCase name (u ++ '>' :: t) = Text.beginsIgnoringCase name u := by
  induction name generalizing u with
  | nil => rfl
  | cons p name ih =>
    obtain ⟨hp, hrest⟩ := List.forall_mem_cons.mp hname
    cases u with
    | nil => simp [Text.beginsIgnoringCase, hp]
    | cons c u => rw [List.cons_append, Text.beginsIgnoringCase, Text.beginsIgnoringCase, ih hrest]

/-- A name that a text begins with is no longer than the text. -/
theorem length_le_of_beginsIgnoringCase {name s : Text}
    (h : Text.beginsIgnoringCase name s = true) : name.length ≤ s.length := by
  induction name generalizing s with
  | nil => exact Nat.zero_le _
  | cons p name ih =>
    cases s with
    | nil => cases h
    | cons c s =>
      rw [Text.beginsIgnoringCase, Bool.and_eq_true] at h
      exact Nat.succ_le_succ (ih h.2)

/-- A name looks no further than the bracket. -/
theorem curbed_literalIgnoringCase {name : Text} (hname : ∀ p ∈ name, sameLetter p '>' = false) :
    Curbed (Text.literalIgnoringCase name) := by
  intro u t t'
  simp only [Text.literalIgnoringCase, beginsIgnoringCase_bracket hname]

/-- A name does not pass a bracket. -/
theorem shy_literalIgnoringCase {name : Text} (hname : ∀ p ∈ name, sameLetter p '>' = false) :
    Shy (Text.literalIgnoringCase name) := by
  intro u t n hn
  rw [Text.literalIgnoringCase, beginsIgnoringCase_bracket hname] at hn
  split at hn
  · rename_i hbegins
    rw [← Option.some.inj hn]
    exact length_le_of_beginsIgnoringCase hbegins
  · cases hn

/-- **An end tag looks no further than its bracket.** -/
theorem curbed_endTagOf {name : Text} (hname : ∀ p ∈ name, sameLetter p '>' = false) :
    Curbed (Html.endTagOf name) := by
  have hclose : Curbed (Text.literal ['>']) := curbed_literal (by simp)
  have hspaced := curbed_gap.andThen shy_gap hclose
  have hnamed := (curbed_literalIgnoringCase hname).andThen (shy_literalIgnoringCase hname) hspaced
  have hopened := curbed_gap.andThen shy_gap hnamed
  exact (curbed_literal (by decide)).andThen (shy_literal (by decide)) hopened

/-- What is found up to a bracket is found with anything behind the bracket. -/
theorem Curbed.searchFrom {r : Recogniser} (h : Curbed r) {u t : Text} {i j n : Nat}
    (hfound : Text.searchFrom r i (u ++ '>' :: t) = some (j, n)) (hj : j ≤ i + u.length)
    (t' : Text) : Text.searchFrom r i (u ++ '>' :: t') = some (j, n) := by
  induction u generalizing i with
  | nil =>
    have hsame := h [] t' t
    rw [List.nil_append, List.nil_append] at hsame
    rw [List.nil_append, Text.searchFrom] at hfound ⊢
    rw [hsame]
    cases hr : r ('>' :: t) with
    | some m =>
      rw [hr] at hfound
      exact hfound
    | none =>
      -- it would be found behind the bracket only
      rw [hr] at hfound
      obtain ⟨m, hm, -⟩ := Text.searchFrom_spec hfound
      simp only [List.length_nil] at hj
      omega
  | cons c u ih =>
    have hsame := h (c :: u) t' t
    rw [List.cons_append, List.cons_append] at hsame
    rw [List.cons_append, Text.searchFrom] at hfound ⊢
    rw [hsame]
    cases hr : r (c :: (u ++ '>' :: t)) with
    | some m =>
      rw [hr] at hfound
      exact hfound
    | none =>
      rw [hr] at hfound
      exact ih hfound (by simp only [List.length_cons] at hj; omega)

end Recogniser

/-! ## The ends of tags -/

namespace Tag

/-- What the reader looks for in an atom has no bracket but at its end. -/
def Spot.Fair : Spot → Prop
  | .atom _ closer => '>' ∉ closer.dropLast
  | _ => True

/-- A reader goes on fairly: both closers have a bracket at their end only. -/
theorem Spot.Fair.next {spot : Spot} (h : spot.Fair) (templates : Bool) (lead : Nat) (c : Char)
    (s : Text) : (spot.next templates lead c s).Fair := by
  unfold Spot.next
  split
  · split
    · trivial
    · split
      · exact (by decide : '>' ∉ "-->".toList.dropLast)
      · split
        · exact (by decide : '>' ∉ "?>".toList.dropLast)
        · trivial
  · split <;> trivial
  · exact h
  · split
    · trivial
    · exact h
  · trivial
  · trivial

/-- Where a reader goes shows before the bracket. -/
theorem Spot.next_bracket {spot : Spot} (h : spot.Fair) (templates : Bool) (lead : Nat) (c : Char)
    (u t t' : Text) : spot.next templates lead c (u ++ '>' :: t) =
      spot.next templates lead c (u ++ '>' :: t') := by
  have hsame : ∀ pat : Text, '>' ∉ pat.dropLast →
      pat.isPrefixOf (c :: (u ++ '>' :: t)) = pat.isPrefixOf (c :: (u ++ '>' :: t')) :=
    fun pat hpat => Text.isPrefixOf_bracket hpat (c :: u) t t'
  cases spot with
  | plain =>
    rw [Spot.next, Spot.next, hsame "<!--".toList (by decide), hsame "<?".toList (by decide)]
  | quoted q => rfl
  | atom skip closer =>
    cases skip with
    | zero => rw [Spot.next, Spot.next, hsame closer h]
    | succ skip => rfl
  | leaving n => cases n with
    | zero => rfl
    | succ n => cases n <;> rfl

/-- A tag that ends at a bracket ends there with anything behind it. -/
theorem length_bracket {templates : Bool} {spot : Spot} (hfair : spot.Fair) {u t : Text}
    (ht : t ≠ []) (h : length templates spot (u ++ '>' :: t) ≤ u.length + 1) (t' : Text) :
    length templates spot (u ++ '>' :: t') = length templates spot (u ++ '>' :: t) := by
  induction u generalizing spot with
  | nil =>
    rw [List.nil_append, length] at h
    rw [List.nil_append, List.nil_append, length, length]
    split at h
    · rename_i hclose
      rw [if_pos hclose, if_pos hclose]
    · -- the reader goes on behind the bracket
      obtain ⟨c, t, rfl⟩ := List.exists_cons_of_ne_nil ht
      rw [length] at h
      split at h <;> simp only [List.length_nil] at h <;> omega
  | cons c u ih =>
    rw [List.cons_append, length] at h
    rw [List.cons_append, List.cons_append, length, length,
      Spot.next_bracket hfair templates 4 c u t' t]
    split at h
    · rename_i hclose
      rw [if_pos hclose, if_pos hclose]
    · rename_i hclose
      rw [List.length_cons] at h
      rw [if_neg hclose, if_neg hclose, ih (hfair.next ..) (by omega)]

end Tag

/-! ## Elements that are copied whole -/

namespace Item

/-- The first bracket is found at the end of the characters before it. -/
theorem through?_bracket (u t : Text) :
    Text.through? ['>'] (u ++ '>' :: t) = some ((u.takeWhile (· != '>')).length + 1) := by
  have hpre : ∀ s, List.isPrefixOf ['>'] ('>' :: s) = true := fun _ => rfl
  -- the search passes over what is no bracket, and stops at the first one at the latest
  have hfind : ∀ i, Text.findFrom ['>'] i (u ++ '>' :: t) =
      some (i + (u.takeWhile (· != '>')).length) := by
    induction u with
    | nil =>
      intro i
      rw [List.nil_append, Text.findFrom, if_pos (hpre t)]
      rfl
    | cons c u ih =>
      intro i
      rw [List.cons_append, Text.findFrom]
      by_cases hc : c = '>'
      · subst hc
        rw [if_pos (hpre _)]
        simp
      · have hpre : ¬ List.isPrefixOf ['>'] (c :: (u ++ '>' :: t)) = true := by
          simpa [List.isPrefixOf] using fun h => hc h.symm
        rw [if_neg hpre, ih, List.takeWhile_cons_of_pos (by simpa using hc), List.length_cons]
        congr 1
        omega
  rw [Text.through?, Text.find?, hfind, Nat.zero_add]
  rfl

/-- A tag of an element, told from the text up to a bracket. -/
def tagUpTo? (name u : Text) : Option (Bool × Bool × Nat) :=
  let closes := u.head? == some '/'
  let lead := if closes then 2 else 1
  let inside := if closes then u.tail else u
  let named := inside.dropWhile isBlank
  let after := named.drop name.length
  if Text.beginsIgnoringCase name named &&
      (after.head?.all fun c => isBlank c || c == '/' || c == '>')
  then
    let length := lead + (inside.takeWhile isBlank).length + name.length +
      ((after.takeWhile (· != '>')).length + 1)
    some (closes, Text.endsWith "/>".toList (('<' :: u ++ ['>']).take length), length)
  else none

/-- **A tag of an element is told from the text up to a bracket.** -/
theorem tagOf?_bracket {name : Text} (hname : '>' ∉ name) (u t : Text) :
    tagOf? name ('<' :: u ++ '>' :: t) = tagUpTo? name u := by
  have hletters : ∀ p ∈ name, sameLetter p '>' = false :=
    fun p hp => sameLetter_bracket fun h => hname (h ▸ hp)
  -- what stands behind the opener of the tag, up to the bracket
  obtain ⟨lead, inside, hlead, hinside, hlength, hdrop⟩ : ∃ lead inside,
      (if u.head? == some '/' then 2 else 1) = lead ∧
      (if u.head? == some '/' then u.tail else u) = inside ∧
      lead + inside.length = u.length + 1 ∧
      ('<' :: u ++ '>' :: t).drop lead = inside ++ '>' :: t := by
    cases u with
    | nil => exact ⟨1, [], rfl, rfl, rfl, rfl⟩
    | cons c u =>
      by_cases hc : c = '/'
      · subst hc
        refine ⟨2, u, rfl, rfl, ?_, rfl⟩
        rw [List.length_cons]
        omega
      · refine ⟨1, c :: u, by simp [hc], by simp [hc], ?_, rfl⟩
        omega
  have hcloses : ((u ++ '>' :: t).head? == some '/') = (u.head? == some '/') := by
    cases u <;> rfl
  -- the name, after white space
  have hnamed : ('<' :: u ++ '>' :: t).drop (lead + (inside.takeWhile isBlank).length) =
      inside.dropWhile isBlank ++ '>' :: t := by
    rw [← List.drop_drop, hdrop,
      List.drop_append_of_le_length (List.takeWhile_prefix _).length_le, Text.drop_length_takeWhile]
  rw [List.cons_append] at hdrop hnamed
  unfold tagOf? tagUpTo?
  simp only [List.cons_append, hcloses, hlead, hinside, hdrop, Text.blanks_bracket, hnamed,
    Recogniser.beginsIgnoringCase_bracket hletters]
  cases hbegins : Text.beginsIgnoringCase name (inside.dropWhile isBlank) with
  | false => rfl
  | true =>
    have hle := Recogniser.length_le_of_beginsIgnoringCase hbegins
    -- behind the name the tag ends at the first bracket, or goes on to another
    have hafter : ('<' :: (u ++ '>' :: t)).drop
        (lead + (inside.takeWhile isBlank).length + name.length) =
          (inside.dropWhile isBlank).drop name.length ++ '>' :: t := by
      rw [← List.drop_drop, hnamed, List.drop_append_of_le_length hle]
    have htake : ∀ n ≤ u.length + 2,
        ('<' :: (u ++ '>' :: t)).take n = ('<' :: (u ++ ['>'])).take n := by
      intro n hn
      have hcut : '<' :: (u ++ '>' :: t) = '<' :: (u ++ ['>']) ++ t := by simp
      rw [hcut, List.take_append_of_le_length]
      simpa using hn
    have hinside' := congrArg List.length
      (List.takeWhile_append_dropWhile (p := isBlank) (l := inside))
    rw [List.length_append] at hinside'
    simp only [if_true, Bool.true_and, hafter, through?_bracket, Option.map_some]
    generalize hz : (inside.dropWhile isBlank).drop name.length = z
    have hz' := congrArg List.length hz
    rw [List.length_drop] at hz'
    have hlead' := (List.takeWhile_prefix (l := z) (· != '>')).length_le
    rw [htake _ (by omega)]
    cases z with
    | nil => simp
    | cons c z => simp

/-- No tag begins where there is no bracket. -/
theorem tagOf?_of_head {c : Char} (hc : c ≠ '<') (name s : Text) : tagOf? name (c :: s) = none := by
  unfold tagOf?
  split
  · rename_i heq
    exact absurd (List.cons.inj heq).1 hc
  · rfl

/-- A tag of an element is not empty, and lies in the text. -/
theorem length_of_tagOf? {name s : Text} {closes selfClosing : Bool} {n : Nat}
    (h : tagOf? name s = some (closes, selfClosing, n)) : 0 < n ∧ n ≤ s.length := by
  obtain ⟨head, m, hhead, hm, rfl⟩ := exists_of_tagOf? h
  obtain ⟨j, hj, rfl⟩ := Option.map_eq_some_iff.mp hm
  obtain ⟨k, rfl, hpre⟩ := Text.findFrom_spec hj
  have hle := hpre.length_le
  simp only [List.length_drop, List.length_cons, List.length_nil] at hle ⊢
  omega

/-- What is left of an element is not empty. -/
theorem elementRest_pos (name : Text) (depth : Nat) {s : Text} (hs : s ≠ []) :
    0 < elementRest name depth s := by
  obtain ⟨c, s, rfl⟩ := List.exists_cons_of_ne_nil hs
  rw [elementRest]
  split
  · rename_i n htag
    have hpos := (length_of_tagOf? htag).1
    split <;> omega
  · omega
  · omega

/-- With a bracket ahead, what follows the bracket says nothing of a tag here, and the tag
ends with the bracket at the latest. -/
theorem tagOf?_ahead {name : Text} (hname : '>' ∉ name) (c : Char) (u t t' : Text) :
    tagOf? name (c :: (u ++ '>' :: t')) = tagOf? name (c :: (u ++ '>' :: t)) ∧
      ∀ closes selfClosing n,
        tagOf? name (c :: (u ++ '>' :: t)) = some (closes, selfClosing, n) → n ≤ u.length + 2 := by
  by_cases hc : c = '<'
  · subst hc
    have hbracket := tagOf?_bracket hname u
    simp only [List.cons_append] at hbracket
    refine ⟨by rw [hbracket, hbracket], fun closes selfClosing n hn => ?_⟩
    rw [hbracket, ← hbracket []] at hn
    simpa using (length_of_tagOf? hn).2
  · rw [tagOf?_of_head hc, tagOf?_of_head hc]
    exact ⟨rfl, fun _ _ _ h => nomatch h⟩

/-- An element that ends at a bracket ends there with anything behind it. -/
theorem elementRest_bracket {name : Text} (hname : '>' ∉ name) {depth : Nat} {u t : Text}
    (ht : t ≠ []) (h : elementRest name depth (u ++ '>' :: t) ≤ u.length + 1) (t' : Text) :
    elementRest name depth (u ++ '>' :: t') = elementRest name depth (u ++ '>' :: t) := by
  induction hu : u.length using Nat.strong_induction_on generalizing u depth with
  | _ k ih =>
    subst hu
    cases u with
    | nil =>
      rw [List.nil_append, elementRest, tagOf?_of_head (by decide)] at h
      -- the element would go on behind the bracket
      have hpos := elementRest_pos name depth ht
      simp only [List.length_nil] at h
      omega
    | cons c u =>
      obtain ⟨hsame, hbound⟩ := tagOf?_ahead hname c u t t'
      -- behind a tag the element goes on, with the bracket still ahead
      have hgo : ∀ (depth n : Nat), n ≤ u.length + 2 →
          1 + (n - 1) + elementRest name depth ((u ++ '>' :: t).drop (n - 1)) ≤ u.length + 2 →
          elementRest name depth ((u ++ '>' :: t').drop (n - 1)) =
            elementRest name depth ((u ++ '>' :: t).drop (n - 1)) := by
        intro depth n hn hle
        by_cases hlast : n - 1 ≤ u.length
        · rw [List.drop_append_of_le_length hlast] at hle ⊢
          rw [List.drop_append_of_le_length hlast]
          refine ih _ ?_ ?_ rfl
          · rw [List.length_drop, List.length_cons]
            omega
          · rw [List.length_drop]
            omega
        · have hdrop : (u ++ '>' :: t).drop (n - 1) = t := by
            have hn' : n - 1 = u.length + 1 := by omega
            rw [hn', ← List.drop_drop, List.drop_left]
            rfl
          rw [hdrop] at hle
          have hpos := elementRest_pos name depth ht
          omega
      rw [List.cons_append, elementRest] at h
      rw [List.cons_append, List.cons_append, elementRest, elementRest, hsame]
      simp only [List.length_cons] at h
      split at h
      · -- an end tag, which may close the element
        rename_i n htag
        have hn := hbound _ _ _ htag
        split at h
        · rename_i hdepth
          simp only [htag, if_pos hdepth]
        · rename_i hdepth
          simp only [htag, if_neg hdepth, hgo _ n hn h]
      · -- a start tag
        rename_i selfClosing n htag
        simp only [htag, hgo _ n (hbound _ _ _ htag) h]
      · -- a character that begins no tag of the name
        rename_i htag
        have hrest := hgo depth 1 (by omega) (by simpa using h)
        simp only [Nat.sub_self, List.drop_zero] at hrest
        simp only [htag, hrest]

/-! ## Items that are read as themselves -/

/-- A front that ends with the bracket has this length. -/
theorem eq_of_take_bracket {u : Text} {n : Nat} (h : (u ++ ['>', ' ']).take n = u ++ ['>']) :
    n = u.length + 1 := by
  have hlength := congrArg List.length h
  simp only [List.length_take, List.length_append, List.length_cons, List.length_nil] at hlength
  omega

/-- A text with its bracket is a front of what follows. -/
theorem take_bracket (u t : Text) : (u ++ '>' :: t).take (u.length + 1) = u ++ ['>'] := by
  rw [List.take_append, List.take_of_length_le (Nat.le_succ _), Nat.add_sub_cancel_left]
  rfl

/-- **A copied item that ends at a bracket ends there with anything behind it.** -/
theorem extent_bracket {terminator : Text} (hterm : '>' ∉ terminator.dropLast)
    (hne : terminator ≠ []) {head : Nat} {u : Text} (hhead : head ≤ u.length)
    (h : extent head terminator (u ++ ['>', ' ']) = u.length + 1) (t : Text) :
    extent head terminator (u ++ '>' :: t) = u.length + 1 := by
  unfold extent at h ⊢
  rw [List.drop_append_of_le_length hhead] at h ⊢
  have hpos := List.length_pos_iff.mpr hne
  cases hthrough : Text.through? terminator (u.drop head ++ ['>', ' ']) with
  | none =>
    -- without a terminator the extent takes in the space
    rw [hthrough] at h
    simp at h
  | some n =>
    rw [hthrough] at h
    obtain ⟨j, hj, rfl⟩ := Option.map_eq_some_iff.mp hthrough
    have hfound := Text.findFrom_bracket hterm hj (by
      rw [List.length_drop]
      dsimp only at h
      omega) t
    rw [Text.through?, Text.find?, hfound]
    exact h

/-- So does a tag. -/
theorem tagLength_bracket (o : MarkupOptions) {u : Text} (hu : u ≠ [])
    (h : tagLength o (u ++ ['>', ' ']) ≤ u.length + 1) (t : Text) :
    tagLength o (u ++ '>' :: t) = tagLength o (u ++ ['>', ' ']) := by
  obtain ⟨c, u, rfl⟩ := List.exists_cons_of_ne_nil hu
  simp only [tagLength, List.cons_append, List.drop_succ_cons, List.drop_zero,
    List.length_cons] at h ⊢
  have hfair : Tag.Spot.Fair .plain := trivial
  rw [Tag.length_bracket hfair (List.cons_ne_nil ' ' []) (by omega) t]

/-- A start tag that ends at a bracket is the same with anything behind it. -/
theorem startTagOf_bracket (o : MarkupOptions) {u : Text} (hu : u ≠ []) {n : Nat}
    (hn : n ≤ u.length + 1) (t t' : Text) :
    startTagOf o (u ++ '>' :: t) n = startTagOf o (u ++ '>' :: t') n := by
  have hraw : (u ++ '>' :: t).take n = (u ++ '>' :: t').take n := by
    have hmin : n = min n (u.length + 1) := by omega
    rw [hmin, ← List.take_take, ← List.take_take, take_bracket, take_bracket]
  have hname : Tag.writtenName (u ++ '>' :: t) = Tag.writtenName (u ++ '>' :: t') := by
    obtain ⟨c, u, rfl⟩ := List.exists_cons_of_ne_nil hu
    simp only [Tag.writtenName, List.cons_append, List.drop_succ_cons, List.drop_zero,
      Text.takeWhile_bracket (p := Tag.inName) (by decide)]
  unfold startTagOf
  rw [hraw, hname]

/-- The name of a start tag has no bracket. -/
theorem bracket_notMem_name (o : MarkupOptions) (s : Text) (n : Nat) :
    '>' ∉ (startTagOf o s n).name := by
  refine bracket_notMem_lower fun h => ?_
  exact absurd (List.mem_takeWhile_imp h) (by decide)

/-- **An element that ends at a bracket is the same with anything behind it.** -/
theorem element_bracket {o : MarkupOptions} {u : Text} (hu : u ≠ []) {i : Item}
    (h : element o (u ++ ['>', ' ']) = [i]) (hi : i.raw = u ++ ['>']) (t : Text) :
    element o (u ++ '>' :: t) = [i] := by
  unfold element at h ⊢
  dsimp only at h ⊢
  generalize hn : tagLength o (u ++ ['>', ' ']) = n at h
  -- the tag is the same with anything behind the bracket, if it does not reach beyond it
  have hsame : n ≤ u.length + 1 → tagLength o (u ++ '>' :: t) = n ∧
      startTagOf o (u ++ '>' :: t) n = startTagOf o (u ++ ['>', ' ']) n := by
    intro hle
    rw [tagLength_bracket o hu (by omega) t]
    exact ⟨hn, startTagOf_bracket o hu hle t [' ']⟩
  generalize htag : startTagOf o (u ++ ['>', ' ']) n = tag at h hsame
  have hname : '>' ∉ tag.name := by
    rw [← htag]
    exact bracket_notMem_name o _ n
  split at h
  · -- an element that is copied whole
    rename_i hverbatim
    obtain rfl := List.singleton_inj.mp h
    have hlength := eq_of_take_bracket hi
    obtain ⟨hn', htag'⟩ := hsame (by omega)
    rw [hn', htag', if_pos hverbatim]
    by_cases hinside : n ≤ u.length
    · rw [List.drop_append_of_le_length hinside] at hlength ⊢
      have hrest : elementRest tag.name 1 (u.drop n ++ '>' :: t) =
          elementRest tag.name 1 (u.drop n ++ ['>', ' ']) :=
        elementRest_bracket hname (List.cons_ne_nil ' ' []) (by rw [List.length_drop]; omega) t
      rw [hrest, hlength, take_bracket, ← hi]
      rfl
    · have hend : n = u.length + 1 := by omega
      have hpos := elementRest_pos tag.name 1 (s := (u ++ ['>', ' ']).drop n) (by
        rw [hend]
        simp)
      omega
  · rename_i hverbatim
    split at h
    · -- content that is not markup would take in the space
      rename_i hkeeps
      split at h
      · rename_i hempty
        obtain rfl := List.singleton_inj.mp h
        have hend : n = u.length + 1 := eq_of_take_bracket (by rw [← hi, ← htag]; rfl)
        have hdrop : (u ++ ['>', ' ']).drop n = [' '] := by
          rw [hend]
          simp
        have hbody : bodyLength tag.name [' '] = 1 := rfl
        rw [hdrop, hbody] at hempty
        cases hempty
      · simp at h
    · rename_i hkeeps
      -- a start tag alone, which ends with the bracket
      obtain rfl := List.singleton_inj.mp h
      have hend : n = u.length + 1 := eq_of_take_bracket (by rw [← hi, ← htag]; rfl)
      obtain ⟨hn', htag'⟩ := hsame (by omega)
      rw [hn', htag', if_neg hverbatim, if_neg hkeeps]

/-- An item that is read as itself before a space ends with a bracket. -/
theorem exists_bracket {o : MarkupOptions} {i : Item}
    (h : markup? o (i.raw ++ [' ']) = some [i]) :
    i.isMarkup = true ∧ ∃ u, i.raw = '<' :: u ++ ['>'] := by
  cases fronts_markup? h with
  | single hraw hmarkup hformed hclosed =>
    rename_i n
    have hhead := hformed.head_of_isMarkup hmarkup
    have hlast : i.raw.getLast? = some '>' := by
      rcases hclosed with hclosed | hclosed
      · rwa [← hraw] at hclosed
      · -- then the space would be part of the item
        have hlength := congrArg List.length hraw
        have hdrop := congrArg List.length hclosed
        simp only [List.length_take, List.length_append, List.length_drop, List.length_cons,
          List.length_nil] at hlength hdrop
        omega
    obtain ⟨u, hu⟩ := List.getLast?_eq_some_iff.mp hlast
    refine ⟨hmarkup, ?_⟩
    cases u with
    | nil =>
      rw [hu] at hhead
      cases hhead
    | cons c u =>
      rw [hu] at hhead
      obtain rfl : c = '<' := Option.some.inj hhead
      exact ⟨u, hu⟩

/-- At a letter behind a bracket an element is read. -/
theorem markup?_element (o : MarkupOptions) {c : Char} (hc : c.isAlpha = true) (rest : Text) :
    markup? o ('<' :: c :: rest) = some (element o ('<' :: c :: rest)) := by
  have hne : ∀ d : Char, d.isAlpha = false → c ≠ d := by
    rintro d hd rfl
    rw [hd] at hc
    cases hc
  have hbang : ('!' == c) = false := beq_false_of_ne (hne '!' (by decide)).symm
  have hquery : ('?' == c) = false := beq_false_of_ne (hne '?' (by decide)).symm
  have hcomment : "<!--".toList.isPrefixOf ('<' :: c :: rest) = false := by
    simp [List.isPrefixOf, hbang]
  have htemplate : "<?".toList.isPrefixOf ('<' :: c :: rest) = false := by
    simp [List.isPrefixOf, hquery]
  -- the letter is none of the characters that the cases before ask for
  unfold markup?
  rw [hcomment, htemplate, Bool.and_false, if_neg Bool.false_ne_true, if_neg Bool.false_ne_true]
  split
  · rename_i heq
    exact absurd (List.cons.inj (List.cons.inj heq).2).1 (hne '!' (by decide))
  · rename_i heq
    exact absurd (List.cons.inj (List.cons.inj heq).2).1 (hne '/' (by decide))
  · rename_i heq
    obtain ⟨rfl, rfl⟩ := by simpa using heq
    rw [if_pos hc]
  · rename_i hother
    exact absurd rfl (hother c rest)

/-- At a slash and a letter behind a bracket an end tag is read. -/
theorem markup?_endTag (o : MarkupOptions) {c : Char} (hc : c.isAlpha = true) (rest : Text) :
    markup? o ('<' :: '/' :: c :: rest) =
      some [endTag (('<' :: '/' :: c :: rest).take (tagLength o ('<' :: '/' :: c :: rest)))
        (Text.lower (c :: rest.takeWhile Tag.inName))] := by
  unfold markup?
  simp [List.isPrefixOf, hc]

/-- At an exclamation mark that begins no comment a declaration is read. -/
theorem markup?_declaration (o : MarkupOptions) {rest : Text}
    (h : "<!--".toList.isPrefixOf ('<' :: '!' :: rest) = false) :
    markup? o ('<' :: '!' :: rest) =
      some [declaration (('<' :: '!' :: rest).take (tagLength o ('<' :: '!' :: rest)))] := by
  have htemplate : "<?".toList.isPrefixOf ('<' :: '!' :: rest) = false := by
    simp [List.isPrefixOf]
  unfold markup?
  rw [h, htemplate, Bool.and_false, if_neg Bool.false_ne_true, if_neg Bool.false_ne_true]
  rfl

/-- At the opener of a comment a comment is read. -/
theorem markup?_comment (o : MarkupOptions) {s : Text} (h : "<!--".toList.isPrefixOf s = true) :
    markup? o s = some [comment (s.take (extent 4 "-->".toList s))] := by
  unfold markup?
  rw [if_pos h]

/-- At the opener of code, code is read if there are templates. -/
theorem markup?_template {o : MarkupOptions} {s : Text}
    (h : (o.templates && "<?".toList.isPrefixOf s) = true) :
    markup? o s = some [template (s.take (extent 2 "?>".toList s))] := by
  have hcomment : "<!--".toList.isPrefixOf s = false := by
    obtain ⟨rest, rfl⟩ := List.isPrefixOf_iff_prefix.mp (Bool.and_eq_true_iff.mp h).2
    simp [List.isPrefixOf]
  unfold markup?
  rw [hcomment, if_neg Bool.false_ne_true, if_pos h]

/-- An item that is copied from the text reaches to the bracket, and up to there nothing
depends on what follows. -/
theorem copied_bracket {i : Item} {v : Text} (hraw : i.raw = v ++ ['>']) (t : Text) {n n' : Nat}
    {f : Text → Item} (hf : ∀ r, (f r).raw = r) (hi : f ((v ++ ['>', ' ']).take n) = i)
    (hn' : n = v.length + 1 → n' = v.length + 1) : f ((v ++ '>' :: t).take n') = i := by
  have hlength : n = v.length + 1 := eq_of_take_bracket (by rw [← hraw, ← hi, hf])
  rw [hn' hlength, take_bracket, ← hi, hlength, take_bracket]

/-- **A closed item is read as itself whatever follows.** -/
theorem markup?_closed {o : MarkupOptions} {i : Item} (h : markup? o (i.raw ++ [' ']) = some [i])
    (t : Text) : markup? o (i.raw ++ t) = some [i] := by
  obtain ⟨-, u, hraw⟩ := exists_bracket h
  generalize hv : '<' :: u = v at hraw
  have hv' : v ≠ [] := hv ▸ List.cons_ne_nil _ _
  have hcut : ∀ t, i.raw ++ t = v ++ '>' :: t := by
    intro t
    rw [hraw]
    simp
  rw [hcut] at h ⊢
  have hshort : ∀ {pat : Text}, '>' ∉ pat → pat.isPrefixOf (v ++ ['>', ' ']) = true →
      pat.length ≤ v.length := by
    intro pat hpat hpre
    refine Recogniser.shy_literal hpat v [' '] _ ?_
    rw [Text.literal, if_pos hpre]
  have hopens : opens o (v ++ ['>', ' ']) = true := by
    by_contra hnone
    rw [Bool.not_eq_true, ← markup?_eq_none_iff, h] at hnone
    cases hnone
  have hcopied : ∀ {n n' : Nat} {f : Text → Item}, (∀ r, (f r).raw = r) →
      f ((v ++ ['>', ' ']).take n) = i → (n = v.length + 1 → n' = v.length + 1) →
      f ((v ++ '>' :: t).take n') = i := copied_bracket hraw t
  have htag : tagLength o (v ++ ['>', ' ']) = v.length + 1 →
      tagLength o (v ++ '>' :: t) = v.length + 1 := by
    intro hlength
    rw [tagLength_bracket o hv' (by omega) t, hlength]
  have hcomment' : "<!--".toList.isPrefixOf (v ++ '>' :: t) =
      "<!--".toList.isPrefixOf (v ++ ['>', ' ']) :=
    Text.isPrefixOf_bracket (by decide) v t [' ']
  have htemplate' : "<?".toList.isPrefixOf (v ++ '>' :: t) =
      "<?".toList.isPrefixOf (v ++ ['>', ' ']) :=
    Text.isPrefixOf_bracket (by decide) v t [' ']
  -- the case that is taken is decided before the bracket, so it is the same for both texts;
  -- then the extent is
  by_cases hcomment : "<!--".toList.isPrefixOf (v ++ ['>', ' ']) = true
  · have hhead : 4 ≤ v.length := hshort (by decide) hcomment
    rw [markup?_comment o hcomment] at h
    rw [markup?_comment o (hcomment'.trans hcomment)]
    rw [hcopied (f := comment) (fun _ => rfl) (List.singleton_inj.mp (Option.some.inj h))
      fun hlength => extent_bracket (by decide) (by decide) hhead hlength t]
  by_cases htemplate : (o.templates && "<?".toList.isPrefixOf (v ++ ['>', ' '])) = true
  · have hhead : 2 ≤ v.length :=
      hshort (by decide : '>' ∉ "<?".toList) (Bool.and_eq_true_iff.mp htemplate).2
    rw [markup?_template htemplate] at h
    rw [markup?_template (htemplate' ▸ htemplate)]
    rw [hcopied (f := template) (fun _ => rfl) (List.singleton_inj.mp (Option.some.inj h))
      fun hlength => extent_bracket (by decide) (by decide) hhead hlength t]
  subst hv
  cases u with
  | nil => exact absurd hopens (by simp [opens])
  | cons c u =>
    simp only [List.cons_append, opens, Bool.or_eq_true, Bool.and_eq_true, beq_iff_eq] at hopens
    simp only [List.cons_append, Bool.not_eq_true] at h hcomment hcomment' hcopied htag ⊢
    rcases hopens with ((rfl | ⟨rfl, htemplates⟩) | halpha) | ⟨rfl, hend⟩
    · -- a declaration
      rw [markup?_declaration o hcomment] at h
      rw [markup?_declaration o (hcomment'.trans hcomment)]
      rw [hcopied (f := declaration) (fun _ => rfl) (List.singleton_inj.mp (Option.some.inj h))
        htag]
    · -- code of a template, which has been dealt with
      exact absurd htemplates (by simpa [List.isPrefixOf] using htemplate)
    · -- an element
      rw [markup?_element o halpha] at h ⊢
      rw [← List.cons_append, ← List.cons_append] at h ⊢
      rw [element_bracket hv' (Option.some.inj h) hraw t]
    · -- an end tag
      cases u with
      | nil => exact absurd hend (by decide)
      | cons d u =>
        have hname : (u ++ '>' :: t).takeWhile Tag.inName =
            (u ++ ['>', ' ']).takeWhile Tag.inName := by
          rw [Text.takeWhile_bracket (by decide), Text.takeWhile_bracket (by decide)]
        have halpha : d.isAlpha = true := hend
        simp only [List.cons_append] at h hcopied htag ⊢
        rw [markup?_endTag o halpha] at h ⊢
        rw [hname]
        generalize Text.lower (d :: (u ++ ['>', ' ']).takeWhile Tag.inName) = name at h ⊢
        rw [hcopied (f := fun r => endTag r name) (fun _ => rfl)
          (List.singleton_inj.mp (Option.some.inj h)) htag]

end Item

end TemplateTidy
