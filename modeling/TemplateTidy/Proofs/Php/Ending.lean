import TemplateTidy.Php.Rule
import TemplateTidy.Proofs.Marker.Barrier

/-!
# How lexemes of code end

A seam of two lexemes can divide something forbidden only behind one of three
characters, the *hooks*. Nearly all rules of code recognise texts that end with
something else, whatever follows: their recognisers are *firm*. Firmness goes
along with the ways in which recognisers are put together, so there is one lemma
for each of these ways and one for each pattern that is built by hand.

The rest are rules that take as many characters of a class as possible. Such a
text may end with a hook. But what stands behind a hook in something forbidden
belongs to the same classes, so it would have been taken too.

Either way a rule *settles*: no seam behind what it recognises divides anything
forbidden. The one exception is the rule of markup for a single bracket.

Main results: `Php.settles_of_mem_rules`, `Php.settles_of_mem_markupRules`,
`Php.exists_frame`.
-/

namespace TemplateTidy

namespace Recogniser

/-- What is recognised does not end with a hook. -/
def Mild (r : Recogniser) : Prop :=
  ∀ s n, r s = some n → ∀ c ∈ (s.take n).getLast?, c ∉ Text.hooks

/-- What is recognised is not empty and does not end with a hook. -/
def Firm (r : Recogniser) : Prop :=
  ∀ s n, r s = some n → ∃ c ∈ (s.take n).getLast?, c ∉ Text.hooks

/-- Firm is stronger than mild. -/
theorem Firm.mild {r : Recogniser} (h : Firm r) : Mild r := by
  intro s n hn c hc
  obtain ⟨d, hd, hhook⟩ := h s n hn
  obtain rfl := Option.some.inj (hc.symm.trans hd)
  exact hhook

/-! ## One thing after another -/

/-- What is recognised further on in the text ends the whole. -/
theorem Firm.shift {r : Recogniser} (h : Firm r) {s : Text} {m n : Nat}
    (hn : r (s.drop m) = some n) : ∃ c ∈ (s.take (m + n)).getLast?, c ∉ Text.hooks := by
  obtain ⟨c, hc, hhook⟩ := h _ _ hn
  refine ⟨c, ?_, hhook⟩
  rw [List.take_add, List.getLast?_append, hc]
  rfl

/-- The second of two recognisers decides how a match ends, if it is firm. -/
theorem Firm.andThen_left {r r' : Recogniser} (h : Firm r') : Firm (andThen r r') := by
  intro s n hn
  unfold andThen at hn
  split at hn
  · obtain ⟨m, hm, rfl⟩ := Option.map_eq_some_iff.mp hn
    exact h.shift hm
  · cases hn

/-- Behind a firm text something may be added that is mild, or nothing. -/
theorem getLast?_take_add {s : Text} {m n : Nat}
    (hm : ∃ c ∈ (s.take m).getLast?, c ∉ Text.hooks)
    (hn : ∀ c ∈ ((s.drop m).take n).getLast?, c ∉ Text.hooks) :
    ∃ c ∈ (s.take (m + n)).getLast?, c ∉ Text.hooks := by
  rw [List.take_add, List.getLast?_append]
  cases hlast : ((s.drop m).take n).getLast? with
  | none => exact hm
  | some c => exact ⟨c, rfl, hn c hlast⟩

/-- A firm recogniser with a mild one behind it is firm, also where that one matches nothing. -/
theorem Firm.andThen_mild {r r' : Recogniser} (h : Firm r) (h' : Mild r') :
    Firm (andThen r r') := by
  intro s n hn
  unfold andThen at hn
  split at hn
  · rename_i m hm
    obtain ⟨m', hm', rfl⟩ := Option.map_eq_some_iff.mp hn
    exact getLast?_take_add (h s m hm) (h' _ m' hm')
  · cases hn

/-- One mild recogniser behind another is mild. -/
theorem Mild.andThen {r r' : Recogniser} (h : Mild r) (h' : Mild r') : Mild (andThen r r') := by
  intro s n hn
  unfold Recogniser.andThen at hn
  split at hn
  · rename_i m hm
    obtain ⟨m', hm', rfl⟩ := Option.map_eq_some_iff.mp hn
    intro c hc
    rw [List.take_add, List.getLast?_append] at hc
    rcases Option.or_eq_some_iff.mp hc with hc | ⟨-, hc⟩
    · exact h' _ m' hm' c hc
    · exact h s m hm c hc
  · cases hn

/-- Something that need not be there. -/
theorem Mild.getD {r : Recogniser} (h : Mild r) (s : Text) :
    ∀ c ∈ (s.take ((r s).getD 0)).getLast?, c ∉ Text.hooks := by
  intro c hc
  cases hr : r s with
  | none =>
    rw [hr] at hc
    cases hc
  | some n =>
    rw [hr] at hc
    exact h s n hr c hc

/-- What is recognised under a condition is recognised without it. -/
theorem of_before {r : Recogniser} {test : Text → Bool} {s : Text} {n : Nat}
    (h : before r test s = some n) : r s = some n := by
  unfold before at h
  split at h
  · rename_i m hm
    split at h
    · rw [hm, h]
    · cases h
  · cases h

/-- A condition on what follows leaves a recogniser firm. -/
theorem Firm.before {r : Recogniser} (h : Firm r) (test : Text → Bool) : Firm (before r test) := by
  intro s n hn
  exact h s n (of_before hn)

/-- A choice between firm recognisers is firm. -/
theorem Firm.firstOf {rs : List Recogniser} (h : ∀ r ∈ rs, Firm r) : Firm (firstOf rs) := by
  intro s n hn
  obtain ⟨r, hr, hn⟩ := List.exists_of_findSome?_eq_some hn
  exact h r hr s n hn

/-- White space in front leaves a recogniser firm. -/
theorem Firm.afterBlanks {r : Recogniser} (h : Firm r) : Firm (afterBlanks r) := by
  intro s
  induction s with
  | nil => exact h []
  | cons c s ih =>
    intro n hn
    rw [Recogniser.afterBlanks] at hn
    split at hn
    · -- a blank is skipped if the recogniser succeeds behind it, and given back if not
      split at hn
      · rename_i m hm
        rw [← Option.some.inj hn]
        obtain ⟨d, hd, hhook⟩ := ih m hm
        refine ⟨d, ?_, hhook⟩
        rw [Nat.add_comm, List.take_succ_cons, List.getLast?_cons, hd]
        rfl
      · exact h _ n hn
    · exact h _ n hn

/-- So does white space that must be there. -/
theorem Firm.afterGap {r : Recogniser} (h : Firm r) : Firm (afterGap r) := by
  intro s n hn
  unfold Recogniser.afterGap at hn
  split at hn
  · cases hn
  · rename_i c s
    split at hn
    · obtain ⟨m, hm, rfl⟩ := Option.map_eq_some_iff.mp hn
      exact h.afterBlanks.shift (s := c :: s) (m := 1) hm
    · cases hn

/-! ## Fixed texts and runs of characters -/

/-- A text that is found at an offset ends what is taken up to its end. -/
theorem getLast?_of_prefix_drop {s : Text} {m : Nat} {c : Char} {p : Text} (h : p <+: s.drop m)
    (hc : p.getLast? = some c) : (s.take (m + p.length)).getLast? = some c := by
  rw [List.take_add, ← List.prefix_iff_eq_take.mp h, List.getLast?_append, hc]
  rfl

/-- A literal is firm if its last character is no hook. -/
theorem firm_literal {pat : Text} {c : Char} (hlast : pat.getLast? = some c)
    (hc : c ∉ Text.hooks) : Firm (Text.literal pat) := by
  intro s n hn
  unfold Text.literal at hn
  split at hn
  · rename_i hpre
    rw [← Option.some.inj hn, ← Nat.zero_add pat.length]
    exact ⟨c, getLast?_of_prefix_drop (m := 0) (List.isPrefixOf_iff_prefix.mp hpre) hlast, hc⟩
  · cases hn

/-- So is a search for one. -/
theorem firm_through {closer : Text} {c : Char} (hlast : closer.getLast? = some c)
    (hc : c ∉ Text.hooks) : Firm (through closer) := by
  intro s n hn
  obtain ⟨i, hi, rfl⟩ := Option.map_eq_some_iff.mp hn
  obtain ⟨m, rfl, hm⟩ := Text.findFrom_spec hi
  rw [Nat.zero_add]
  exact ⟨c, getLast?_of_prefix_drop hm hlast, hc⟩

/-- The leading characters of a class, taken from the text. -/
theorem take_leading (p : Char → Bool) (s : Text) :
    s.take (Text.leading p s) = s.takeWhile p := by
  rw [Text.leading_eq_length_takeWhile]
  exact (List.prefix_iff_eq_take.mp (List.takeWhile_prefix p)).symm

/-- The last of several characters of a class without hooks. -/
theorem notMem_hooks_of_takeWhile {p : Char → Bool} (hp : ∀ c ∈ Text.hooks, p c = false)
    {s : Text} {c : Char} (hc : c ∈ (s.takeWhile p).getLast?) : c ∉ Text.hooks := by
  intro hhook
  have hpass := List.all_eq_true.mp List.all_takeWhile c (List.mem_of_getLast? hc)
  rw [hp c hhook] at hpass
  cases hpass

/-- A run of characters is firm if no hook belongs to its classes. -/
theorem firm_run {first rest : Char → Bool} (hfirst : ∀ c ∈ Text.hooks, first c = false)
    (hrest : ∀ c ∈ Text.hooks, rest c = false) : Firm (run first rest) := by
  intro s n hn
  unfold run at hn
  split at hn
  · cases hn
  · rename_i c s
    split at hn
    · rename_i hc
      rw [← Option.some.inj hn]
      refine getLast?_take_add (m := 1) ⟨c, rfl, ?_⟩ ?_
      · intro hhook
        rw [hfirst c hhook] at hc
        cases hc
      · intro d hd
        rw [List.drop_succ_cons, List.drop_zero, take_leading] at hd
        exact notMem_hooks_of_takeWhile hrest hd
    · cases hn

theorem firm_many {p : Char → Bool} (hp : ∀ c ∈ Text.hooks, p c = false) : Firm (many p) :=
  firm_run hp hp

/-- White space is mild. -/
theorem mild_gap (least : Nat) : Mild (gap least) := by
  intro s n hn c hc
  unfold gap at hn
  split at hn
  · rw [← Option.some.inj hn, Text.blanks, take_leading] at hc
    exact notMem_hooks_of_takeWhile (by decide) hc
  · cases hn

/-- White space is firm if some must be there. -/
theorem firm_gap : Firm (gap 1) := by
  intro s n hn
  have hmild := mild_gap 1 s n hn
  unfold gap at hn
  split at hn
  · rename_i hleast
    rw [← Option.some.inj hn] at hmild ⊢
    -- at least one character is taken
    have hne : s.take (Text.blanks s) ≠ [] := by
      intro hnil
      rw [Text.blanks, take_leading] at hnil
      rw [Text.blanks, Text.leading_eq_length_takeWhile, hnil] at hleast
      cases hleast
    exact ⟨_, List.getLast?_eq_some_getLast hne, hmild _ (List.getLast?_eq_some_getLast hne)⟩
  · cases hn

end Recogniser

namespace Php

open Recogniser

/-! ## Words -/

/-- A literal in any letter case is firm if nothing its last letter may stand for is a hook. -/
theorem firm_literalIgnoringCase {w : Text} (hw : w ≠ [])
    (hlast : ∀ p ∈ w.getLast?, ∀ c ∈ Text.hooks, sameLetter p c = false) :
    Firm (Text.literalIgnoringCase w) := by
  intro s n hn
  unfold Text.literalIgnoringCase at hn
  split at hn
  · rename_i hbegins
    rw [← Option.some.inj hn]
    clear hn
    induction w generalizing s with
    | nil => exact absurd rfl hw
    | cons p w ih =>
      cases s with
      | nil => cases hbegins
      | cons c s =>
        rw [Text.beginsIgnoringCase, Bool.and_eq_true] at hbegins
        by_cases hnil : w = []
        · -- the last letter
          refine ⟨c, by rw [hnil]; rfl, fun hhook => ?_⟩
          rw [hlast p (by rw [hnil]; rfl) c hhook] at hbegins
          exact Bool.false_ne_true hbegins.1
        · have hlast' : ∀ q ∈ w.getLast?, ∀ c ∈ Text.hooks, sameLetter q c = false := by
            intro q hq
            exact hlast q (by rw [List.getLast?_cons_of_ne_nil hnil]; exact hq)
          obtain ⟨d, hd, hhook⟩ := ih hnil hlast' s hbegins.2
          refine ⟨d, ?_, hhook⟩
          rw [List.length_cons, List.take_succ_cons, List.getLast?_cons, hd]
          rfl
  · cases hn

/-- A word that is not empty and does not end with a hook, in any letter case. -/
def EndsFirm (w : String) : Prop :=
  w.toList ≠ [] ∧ ∀ p ∈ w.toList.getLast?, ∀ c ∈ Text.hooks, sameLetter p c = false

instance (w : String) : Decidable (EndsFirm w) :=
  inferInstanceAs (Decidable (_ ∧ _))

theorem firm_word {w : String} (h : EndsFirm w) : Firm (word w) :=
  firm_literalIgnoringCase h.1 h.2

/-- A choice between words that end firm is firm. -/
theorem firm_oneOf {words : List String} (h : ∀ w ∈ words, EndsFirm w) : Firm (oneOf words) := by
  refine Firm.firstOf fun r hr => ?_
  obtain ⟨w, hw, rfl⟩ := List.mem_map.mp hr
  exact (firm_word (h w hw)).before _

theorem firm_name : Firm name :=
  firm_run (by decide) (by decide)

theorem firm_path : Firm path :=
  firm_run (by decide) (by decide)

/-- An ampersand, or nothing, is mild. -/
theorem mild_ampersand? : Mild ampersand? := by
  intro s n hn c hc
  unfold ampersand? at hn
  split at hn
  · rw [← Option.some.inj hn] at hc
    have hamp : '&' = c := Option.some.inj hc
    rw [← hamp]
    decide
  · rw [← Option.some.inj hn] at hc
    cases hc

theorem firm_functionExpression : Firm functionExpression :=
  ((firm_word (by decide)).andThen_mild (mild_gap 0)).before _

theorem firm_functionHead : Firm functionHead :=
  (firm_gap.andThen_mild (mild_ampersand?.andThen (mild_gap 0))).andThen_left

theorem firm_newClass : Firm newClass :=
  ((firm_word (by decide)).before _).afterGap.andThen_left

/-! ## Numbers -/

/-- A power of ten is firm by its digits. -/
theorem firm_exponent : Firm exponent := by
  intro s n hn
  unfold exponent at hn
  split at hn
  · rename_i c s
    dsimp only at hn
    split at hn
    · obtain ⟨m, hm, rfl⟩ := Option.map_eq_some_iff.mp hn
      have hdigits : Firm (many Char.isDigit) := firm_many (by decide)
      refine hdigits.shift (s := c :: s) ?_
      rwa [Nat.add_comm, List.drop_succ_cons]
    · cases hn
  · cases hn

/-- A number with a point is firm, whether or not places or a power of ten follow the point. -/
theorem firm_pointed : Firm pointed := by
  intro s n hn
  unfold pointed at hn
  dsimp only at hn
  generalize (s.takeWhile isDecimal).length = whole at hn
  split at hn
  · rename_i rest hrest
    split at hn
    · cases hn
    · rw [← Option.some.inj hn]
      have hpoint : s.drop (whole + 1) = rest := by
        rw [← List.drop_drop, hrest]
        rfl
      -- the point, then the places, then the power
      have hfirst : ∃ c ∈ (s.take (whole + 1)).getLast?, c ∉ Text.hooks := by
        refine ⟨'.', ?_, by decide⟩
        exact getLast?_of_prefix_drop (p := ['.']) (by rw [hrest]; simp) rfl
      have hplaces : ∃ c ∈ (s.take (whole + 1 + (rest.takeWhile isDecimal).length)).getLast?,
          c ∉ Text.hooks := by
        refine getLast?_take_add hfirst fun c hc => ?_
        rw [hpoint, ← List.prefix_iff_eq_take.mp (List.takeWhile_prefix isDecimal)] at hc
        exact notMem_hooks_of_takeWhile (by decide) hc
      refine getLast?_take_add hplaces ?_
      rw [← List.drop_drop, hpoint]
      exact firm_exponent.mild.getD _
  · cases hn

/-- **Numbers are firm** in all notations. -/
theorem firm_number : Firm number := by
  refine Firm.firstOf ?_
  simp only [List.forall_mem_cons, List.not_mem_nil, false_imp_iff, implies_true, and_true]
  exact ⟨firm_pointed, firm_exponent.andThen_left, (firm_many (by decide)).andThen_left,
    (firm_many (by decide)).andThen_left, firm_many (by decide)⟩

/-! ## Strings -/

/-- Characters in front of what is recognised. -/
theorem getLast?_append_take {l s : Text} {n : Nat}
    (h : ∃ c ∈ (s.take n).getLast?, c ∉ Text.hooks) :
    ∃ c ∈ ((l ++ s).take (l.length + n)).getLast?, c ∉ Text.hooks := by
  obtain ⟨c, hc, hhook⟩ := h
  refine ⟨c, ?_, hhook⟩
  rw [List.take_length_add_append, List.getLast?_append, hc]
  rfl

/-- What ends with a quote that is no hook is firm. -/
theorem firm_closingQuote {q : Char} (hq : q ∉ Text.hooks) : Firm (closingQuote q) := by
  intro s
  fun_induction closingQuote q s with
  | case1 => exact fun n hn => nomatch hn
  | case2 => exact fun n hn => nomatch hn
  -- an escaped character, whatever it is
  | case3 c rest ih =>
    intro n hn
    obtain ⟨m, hm, rfl⟩ := Option.map_eq_some_iff.mp hn
    exact getLast?_append_take (l := ['\\', c]) (ih m hm)
  | case4 c rest hlone hescape hc =>
    intro n hn
    rw [← Option.some.inj hn]
    exact ⟨c, rfl, beq_iff_eq.mp hc ▸ hq⟩
  | case5 c rest hlone hescape hc ih =>
    intro n hn
    obtain ⟨m, hm, rfl⟩ := Option.map_eq_some_iff.mp hn
    exact getLast?_append_take (l := [c]) (ih m hm)

theorem firm_quotedBy {q : Char} (hq : q ∉ Text.hooks) : Firm (quotedBy q) :=
  (firm_closingQuote hq).andThen_left

/-- The line that ends a heredoc is firm by its line feed. -/
theorem firm_labelLine (label : Text) : Firm (labelLine label) := by
  intro s n hn
  unfold labelLine at hn
  split at hn
  · split at hn
    · rename_i hrest
      rw [← Option.some.inj hn]
      refine ⟨'\n', getLast?_of_prefix_drop (p := ['\n']) ?_ rfl, by decide⟩
      rw [hrest]
      simp
    · rename_i hrest
      rw [← Option.some.inj hn]
      refine ⟨'\n', getLast?_of_prefix_drop (p := [';', '\n']) ?_ rfl, by decide⟩
      rw [hrest]
      simp
    · cases hn
  · cases hn

/-- So is the rest of a heredoc. -/
theorem firm_heredocBody (label : Text) : Firm (heredocBody label) := by
  intro s
  induction s with
  | nil => exact fun n hn => nomatch hn
  | cons c s ih =>
    intro n hn
    rw [heredocBody] at hn
    split at hn
    · rename_i m hm
      rw [← Option.some.inj hn]
      split at hm
      · exact getLast?_append_take (l := [c]) ((firm_labelLine label).afterBlanks s m hm)
      · cases hm
    · obtain ⟨m, hm, rfl⟩ := Option.map_eq_some_iff.mp hn
      exact getLast?_append_take (l := [c]) (ih m hm)

/-- So is a heredoc. -/
theorem firm_heredoc : Firm heredoc := by
  intro s n hn
  unfold heredoc at hn
  split at hn
  · extract_lets quote labelled head at hn
    split at hn
    · cases hn
    · rename_i width hname
      split at hn
      · obtain ⟨m, hm, rfl⟩ := Option.map_eq_some_iff.mp hn
        refine (firm_heredocBody (labelled.take width)).shift (s := s) ?_
        rwa [List.drop_drop, ← Nat.add_assoc] at hm
      · cases hn
  · cases hn

/-! ## Inside strings -/

/-- A bounded run of characters is firm like an unbounded one. -/
theorem firm_upTo (most : Nat) {p : Char → Bool} (hp : ∀ c ∈ Text.hooks, p c = false) :
    Firm (upTo most p) := by
  intro s n hn
  unfold upTo at hn
  split at hn
  · cases hn
  · rename_i hzero
    rw [← Option.some.inj hn]
    have hpre : (s.take most).takeWhile p <+: s :=
      (List.takeWhile_prefix p).trans (List.take_prefix most s)
    rw [← List.prefix_iff_eq_take.mp hpre]
    have hne : (s.take most).takeWhile p ≠ [] := by
      intro hnil
      exact hzero (by rw [hnil]; rfl)
    have hlast := List.getLast?_eq_some_getLast hne
    exact ⟨_, hlast, notMem_hooks_of_takeWhile hp hlast⟩

/-- An escape is firm: nothing that a backslash takes with it is a hook. -/
theorem firm_escape : Firm escape := by
  refine Firm.andThen_left (Firm.firstOf ?_)
  simp only [List.forall_mem_cons, List.not_mem_nil, false_imp_iff, implies_true, and_true]
  exact ⟨firm_run (by decide) (by decide), firm_upTo 3 (by decide),
    (firm_upTo 2 (by decide)).andThen_left⟩

/-- An index behind an interpolated variable is firm. -/
theorem firm_index : Firm index := by
  intro s n hn
  unfold index at hn
  split at hn
  · rename_i first rest
    split at hn
    · cases hn
    · obtain ⟨m, hm, rfl⟩ := Option.map_eq_some_iff.mp hn
      obtain ⟨i, hi, rfl⟩ := Option.map_eq_some_iff.mp hm
      obtain ⟨j, rfl, hj⟩ := Text.findFrom_spec hi
      -- the bracket is found in the row, hence in the text
      have hbracket : [']'] <+: rest.drop j := hj.trans ((List.takeWhile_prefix _).drop j)
      refine getLast?_append_take (l := ['[', first]) ⟨']', ?_, by decide⟩
      rw [Nat.zero_add]
      exact getLast?_of_prefix_drop hbracket rfl
  · cases hn

/-- A variable in a string is firm, with or without an index or a member. -/
theorem firm_interpolatedVariable : Firm interpolatedVariable := by
  intro s n hn
  unfold interpolatedVariable at hn
  split at hn
  · cases hn
  · rename_i m hm
    rw [← Option.some.inj hn]
    have haccess : Firm (firstOf [index, andThen (Text.literal "->".toList) name]) := by
      refine Firm.firstOf ?_
      simp only [List.forall_mem_cons, List.not_mem_nil, false_imp_iff, implies_true, and_true]
      exact ⟨firm_index, firm_name.andThen_left⟩
    exact getLast?_take_add (firm_name.andThen_left s m hm) (haccess.mild.getD _)

/-- So is a variable whose name is braced, by its last brace. -/
theorem firm_bracedName : Firm bracedName := by
  intro s n hn
  unfold bracedName at hn
  split at hn
  · dsimp only at hn
    generalize hrow : (s.drop 2).takeWhile (!isBlank ·) = row at hn
    generalize hback : row.reverse.dropWhile (· != '\x7d') = back at hn
    split at hn
    · rename_i htwo
      rw [← Option.some.inj hn]
      -- up to the last brace of the row
      have hpre : back.reverse <+: s.drop 2 := by
        have hsuffix : back <:+ row.reverse := hback ▸ List.dropWhile_suffix _
        have hprow : row <+: s.drop 2 := hrow ▸ List.takeWhile_prefix _
        have hrev : back.reverse <+: row.reverse.reverse := List.reverse_prefix.mpr hsuffix
        rw [List.reverse_reverse] at hrev
        exact hrev.trans hprow
      have hlast : back.reverse.getLast? = some '\x7d' := by
        cases back with
        | nil => cases htwo
        | cons c back =>
          have hstop := List.head?_dropWhile_not (· != '\x7d') row.reverse
          rw [hback] at hstop
          rw [List.getLast?_reverse, List.head?_cons]
          simpa using hstop
      have hend := getLast?_of_prefix_drop hpre hlast
      rw [List.length_reverse] at hend
      exact ⟨'\x7d', hend, by decide⟩
    · cases hn
  · cases hn

/-! ## Rules -/

/-- What is recognised is not empty, and the seam behind it divides nothing
forbidden. -/
def Settles (r : Recogniser) : Prop :=
  ∀ s n, r s = some n → s.take n ≠ [] ∧ ¬ Text.Straddles (s.take n) (s.drop n)

/-- Behind a text that ends with no hook nothing forbidden can be divided. -/
theorem settles_of_firm {r : Recogniser} (h : Firm r) : Settles r := by
  intro s n hn
  obtain ⟨c, hc, hhook⟩ := h s n hn
  constructor
  · intro hnil
    rw [hnil] at hc
    cases hc
  · rintro ⟨a, ha, b, -, hab⟩
    obtain rfl := Option.some.inj (hc.symm.trans ha)
    exact hhook (Text.mem_hooks hab)

/-- As many characters as possible of a class that holds the second of two neighbours
if it holds the first. -/
theorem settles_many {p : Char → Bool}
    (hp : ∀ d ∈ Text.divisions, p d.1 = true → p d.2 = true) : Settles (many p) := by
  intro s n hn
  unfold many run at hn
  split at hn
  · cases hn
  · rename_i c s
    split at hn
    · rename_i hc
      rw [← Option.some.inj hn, Nat.add_comm, List.take_succ_cons, List.drop_succ_cons,
        take_leading, Text.leading_eq_length_takeWhile, Text.drop_length_takeWhile]
      refine ⟨List.cons_ne_nil _ _, ?_⟩
      rintro ⟨a, ha, b, hb, hab⟩
      have hpass : p a = true := by
        rcases List.mem_cons.mp (List.mem_of_getLast? ha) with rfl | ha
        · exact hc
        · exact List.all_eq_true.mp List.all_takeWhile a ha
      -- the next character was not taken
      have hstop := List.head?_dropWhile_not p s
      rw [show (s.dropWhile p).head? = some b from hb] at hstop
      exact Bool.noConfusion (hstop.symm.trans (hp _ hab hpass))
    · cases hn

/-- **The rules of code settle.** -/
theorem settles_of_mem_codeRules : ∀ rule ∈ codeRules, Settles rule.recognise := by
  have hfirm {r : Recogniser} : Firm r → Settles r := settles_of_firm
  simp only [codeRules, List.forall_mem_cons, List.not_mem_nil, false_imp_iff, implies_true,
    and_true]
  -- rule by rule, in the order of the list; only operators may end with a hook
  exact
    ⟨hfirm (firm_literal rfl (by decide)), hfirm firm_heredoc, hfirm firm_gap,
     hfirm (firm_literal rfl (by decide)),
     hfirm (firm_through rfl (by decide)).andThen_left,
     hfirm (firm_through rfl (by decide)).andThen_left,
     hfirm (firm_literal rfl (by decide)),
     hfirm (firm_through rfl (by decide)).andThen_left,
     hfirm (firm_through rfl (by decide)).andThen_left,
     hfirm firm_name.afterBlanks.andThen_left,
     settles_many (by decide),
     hfirm (firm_literal rfl (by decide)),
     hfirm (firm_many (by decide)),
     hfirm firm_newClass, hfirm firm_gap.andThen_left, hfirm firm_functionExpression,
     hfirm firm_functionHead, hfirm firm_path.afterGap.andThen_left,
     hfirm (firm_oneOf (by decide +kernel)),
     hfirm (firm_literal rfl (by decide)),
     hfirm firm_path.andThen_left, hfirm firm_path, hfirm firm_number,
     hfirm (firm_quotedBy (by decide)), hfirm (firm_quotedBy (by decide)),
     hfirm (firm_literal rfl (by decide))⟩

/-- **The rules of strings settle.** -/
theorem settles_of_mem_stringRules : ∀ rule ∈ stringRules, Settles rule.recognise := by
  have hfirm {r : Recogniser} : Firm r → Settles r := settles_of_firm
  simp only [stringRules, List.forall_mem_cons, List.not_mem_nil, false_imp_iff, implies_true,
    and_true]
  exact
    ⟨hfirm (firm_literal rfl (by decide)), settles_many (by decide), hfirm firm_escape,
     hfirm firm_interpolatedVariable,
     hfirm (firm_through rfl (by decide)).andThen_left,
     hfirm (firm_through rfl (by decide)).andThen_left,
     hfirm firm_bracedName, hfirm (firm_run (by decide) (by decide))⟩

/-- The rules that modes have beside those of code and of strings. -/
def ownRules : List Rule :=
  [{ recognise := Text.literal ['\x7d'], move := .leave },
   { recognise := Text.literal [']'], move := .leave },
   { recognise := Text.literal [')'], move := .leave },
   { recognise := Text.literal ['('], move := .enter .arguments },
   { recognise := oneOf magicMethods },
   { recognise := path },
   { recognise := path, move := .leave }]

/-- The rules of a mode are those of code, those of strings, or its own. -/
theorem mem_rules_cases {mode : Mode} {rule : Rule} (h : rule ∈ mode.rules) :
    rule ∈ codeRules ∨ rule ∈ stringRules ∨ rule ∈ ownRules := by
  cases mode <;> simp only [Mode.rules, List.mem_cons, List.not_mem_nil, or_false] at h
  case code => exact .inl h
  case string => exact .inr (.inl h)
  all_goals
    simp only [ownRules, List.mem_cons, List.not_mem_nil, or_false]
    tauto

/-- **The rules of code settle**, whatever the mode. -/
theorem settles_of_mem_rules {mode : Mode} {rule : Rule} (h : rule ∈ mode.rules) :
    Settles rule.recognise := by
  have hown : ∀ rule ∈ ownRules, Firm rule.recognise := by
    simp only [ownRules, List.forall_mem_cons, List.not_mem_nil, false_imp_iff, implies_true,
      and_true]
    exact ⟨firm_literal rfl (by decide), firm_literal rfl (by decide),
      firm_literal rfl (by decide), firm_literal rfl (by decide), firm_oneOf (by decide +kernel),
      firm_path, firm_path⟩
  rcases mem_rules_cases h with h | h | h
  · exact settles_of_mem_codeRules rule h
  · exact settles_of_mem_stringRules rule h
  · exact settles_of_firm (hown rule h)

/-- The rules of markup settle but for the last one, which takes a bracket alone. -/
theorem settles_of_mem_markupRules {rule : Rule} (h : rule ∈ markupRules) :
    Settles rule.recognise ∨ rule = { recognise := Text.literal ['<'] } := by
  rcases List.mem_cons.mp h with rfl | h
  · refine .inl (settles_of_firm (Firm.firstOf ?_))
    simp only [List.forall_mem_cons, List.not_mem_nil, false_imp_iff, implies_true, and_true]
    exact ⟨firm_word (by decide), firm_literal rfl (by decide)⟩
  rcases List.mem_cons.mp h with rfl | h
  · exact .inl (settles_many (by decide))
  · exact .inr (List.mem_singleton.mp h)

/-! ## Interpolations -/

/-- Where a fixed text is recognised, and after it everything through another one, both
stand at the ends of what is recognised. -/
theorem take_of_andThen_through {r : Recogniser} {opener closer s : Text} {n : Nat}
    (hr : ∀ m, r s = some m → m = opener.length ∧ opener <+: s)
    (h : andThen r (through closer) s = some n) :
    ∃ inner, s.take n = opener ++ inner ++ closer := by
  unfold andThen at h
  split at h
  · rename_i m hm
    obtain ⟨rfl, hopener⟩ := hr m hm
    obtain ⟨m', hm', rfl⟩ := Option.map_eq_some_iff.mp h
    obtain ⟨i, hi, rfl⟩ := Option.map_eq_some_iff.mp hm'
    obtain ⟨j, rfl, hj⟩ := Text.findFrom_spec hi
    refine ⟨(s.drop opener.length).take j, ?_⟩
    rw [Nat.zero_add, List.take_add, List.take_add, ← List.prefix_iff_eq_take.mp hopener,
      ← List.prefix_iff_eq_take.mp hj, List.append_assoc]
  · cases h

/-- A literal is recognised where it stands in front. -/
theorem of_literal {pat s : Text} {m : Nat} (h : Text.literal pat s = some m) :
    m = pat.length ∧ pat <+: s := by
  refine ⟨?_, Sentinel.prefix_of_literal h⟩
  unfold Text.literal at h
  split at h
  · exact (Option.some.inj h).symm
  · cases h

/-- **An interpolation stands in braces.** What its rule recognises is an opening brace,
with what may belong to it, then code, then the closing braces. -/
theorem exists_frame {modes : List Mode} {rule : Rule} (hrule : rule ∈ rulesOf modes)
    {head tail : Nat} (hyields : rule.yields = .interpolation head tail) {s : Text} {n : Nat}
    (h : rule.recognise s = some n) :
    ∃ opener inner closer, s.take n = opener ++ inner ++ closer ∧ opener.length = head ∧
      closer.length = tail ∧ opener.getLast? = some '\x7b' ∧ closer.head? = some '\x7d' := by
  -- only strings have interpolations, and of two kinds
  have hbraced : rule ∈ [⟨bracedVariable, .interpolation 3 2, .stay⟩,
      ⟨bracedExpression, .interpolation 1 1, .stay⟩] := by
    have hnone : ∀ rule ∈ markupRules ++ codeRules ++ ownRules,
        rule.yields ≠ .interpolation head tail := by
      simp [markupRules, codeRules, ownRules]
    have hstring : ∀ rule ∈ stringRules, rule.yields = .interpolation head tail →
        rule ∈ [⟨bracedVariable, .interpolation 3 2, .stay⟩,
          ⟨bracedExpression, .interpolation 1 1, .stay⟩] := by
      simp [stringRules]
    cases modes with
    | nil => exact absurd hyields (hnone rule (by simp [show rule ∈ markupRules from hrule]))
    | cons mode below =>
      rcases mem_rules_cases hrule with hrule | hrule | hrule
      · exact absurd hyields (hnone rule (by simp [hrule]))
      · exact hstring rule hrule hyields
      · exact absurd hyields (hnone rule (by simp [hrule]))
  rcases List.mem_cons.mp hbraced with rfl | hbraced
  · obtain ⟨rfl, rfl⟩ := Yield.interpolation.inj hyields
    obtain ⟨inner, hinner⟩ := take_of_andThen_through (fun m hm => of_literal hm) h
    exact ⟨_, inner, _, hinner, rfl, rfl, rfl, rfl⟩
  · obtain rfl := List.mem_singleton.mp hbraced
    obtain ⟨rfl, rfl⟩ := Yield.interpolation.inj hyields
    have hbrace : ∀ m, before (Text.literal ['\x7b']) (·.head? == some '$') s = some m →
        m = ['\x7b'].length ∧ ['\x7b'] <+: s := fun m hm => of_literal (of_before hm)
    obtain ⟨inner, hinner⟩ := take_of_andThen_through hbrace h
    exact ⟨_, inner, _, hinner, rfl, rfl, rfl, rfl⟩

end Php

end TemplateTidy
