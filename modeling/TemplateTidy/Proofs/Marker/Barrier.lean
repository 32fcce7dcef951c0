import Mathlib.Data.List.Chain
import TemplateTidy.Proofs.Marker.Decode

/-!
# What cannot stand in escaped text

A comment that hides code must hold neither quotes nor its own terminator, nor,
in a script, the opener of an end tag: the texts that are *forbidden* in its
style. Encoding replaces them one after the other. Two things could go wrong.

* A replacement could make a forbidden text anew, out of what it puts in and
  what stands beside it. It does not, because what is put in is *foreign* to
  every forbidden text (`Text.Foreign`): it neither holds one, nor ends like the
  front of one, nor begins like the back of one.
* A segment is encoded token by token, so a forbidden text that lies across the
  seam of two tokens would be overlooked. Nothing here says that there is no such
  seam; but if there is none, the parts can be looked at one by one
  (`Text.not_infix_flatten`).

Main results: `Codec.not_infix_encode`, `Codec.not_straddles_encode`,
`Text.not_infix_flatten`.
-/

namespace TemplateTidy

/-- The escapes that encoding puts in, in this order. -/
def Style.escapes : Style → List Sentinel
  | .markup => [.doubleQuote, .singleQuote, .markupTerminator]
  | .code => [.doubleQuote, .singleQuote, .codeTerminator, .endTagOpen]

/-- What must not occur in a comment of a style. -/
def Style.forbidden (style : Style) : List Text :=
  style.escapes.map Sentinel.sense

/-! ## Seams -/

namespace Text

/-- The neighbouring characters of all that is forbidden. -/
def divisions : List (Char × Char) :=
  [('-', '-'), ('-', '>'), ('*', '/'), ('<', '/')]

/-- The first of two such neighbours. -/
def hooks : Text :=
  ['-', '*', '<']

/-- What is divided begins with a hook. -/
theorem mem_hooks {a b : Char} (h : (a, b) ∈ divisions) : a ∈ hooks := by
  have hall : ∀ p ∈ divisions, p.1 ∈ hooks := by decide
  exact hall _ h

/-- Neighbours in something forbidden are listed. -/
theorem mem_divisions {style : Style} {q : Text} (hq : q ∈ style.forbidden) {a b : Char}
    (h : [a, b] <:+: q) : (a, b) ∈ divisions := by
  have hall : ∀ style : Style, ∀ q ∈ style.forbidden, ∀ t ∈ q.tails, ∀ a ∈ t.head?,
      ∀ b ∈ t.tail.head?, (a, b) ∈ divisions := by
    intro style
    cases style <;> decide
  obtain ⟨front, back, hsplit⟩ := h
  have htail : [a, b] ++ back ∈ q.tails := by
    rw [List.mem_tails, ← hsplit, List.append_assoc]
    exact List.suffix_append ..
  exact hall style q hq _ htail a rfl b rfl

/-- Something forbidden may lie across the seam of two texts. -/
def Straddles (x y : Text) : Prop :=
  ∃ a ∈ x.getLast?, ∃ b ∈ y.head?, (a, b) ∈ divisions

/-- **Parts can be looked at one by one.** Where nothing forbidden occurs in any part
and no seam divides anything forbidden, nothing forbidden occurs in the whole. -/
theorem not_infix_flatten {style : Style} {q : Text} (hq : q ∈ style.forbidden)
    {parts : List Text} (hne : ∀ t ∈ parts, t ≠ []) (hparts : ∀ t ∈ parts, ¬ q <:+: t)
    (hseams : List.IsChain (fun x y => ¬ Straddles x y) parts) : ¬ q <:+: parts.flatten := by
  have hnil : ¬ q <:+: [] := by
    have hall : ∀ q ∈ style.forbidden, ¬ q <:+: [] := by cases style <;> decide
    exact hall q hq
  induction parts with
  | nil => exact hnil
  | cons x parts ih =>
    obtain ⟨-, hne'⟩ := List.forall_mem_cons.mp hne
    obtain ⟨hx, hparts'⟩ := List.forall_mem_cons.mp hparts
    obtain ⟨hseam, hseams'⟩ := List.isChain_cons.mp hseams
    rw [List.flatten_cons, List.infix_append_iff_ne_nil]
    rintro (h | h | ⟨q₁, q₂, hq₁, hq₂, rfl, hfront, hback⟩)
    · exact hx h
    · exact ih hne' hparts' hseams' h
    · -- the seam lies between the last character of `q₁` and the first of `q₂`
      obtain ⟨init, a, rfl⟩ := List.eq_nil_or_concat q₁ |>.resolve_left hq₁
      obtain ⟨b, rest, rfl⟩ := List.exists_cons_of_ne_nil hq₂
      have hdivision : (a, b) ∈ divisions :=
        mem_divisions hq ⟨init, rest, by simp⟩
      obtain ⟨lead, rfl⟩ := hfront
      cases parts with
      | nil => exact hq₂ (List.prefix_nil.mp hback)
      | cons y parts =>
        obtain ⟨c, cs, rfl⟩ := List.exists_cons_of_ne_nil (hne' y (List.mem_cons_self ..))
        obtain ⟨rfl, -⟩ := List.cons_prefix_cons.mp hback
        exact hseam (b :: cs) rfl ⟨a, by simp, b, rfl, hdivision⟩

/-! ## Replacing -/

/-- How an occurrence of `old` at the front is replaced. -/
theorem replaceAll_append {old : Text} (hold : old ≠ []) (new s : Text) :
    replaceAll old new (old ++ s) = new ++ replaceAll old new s := by
  have hempty : ¬ old.isEmpty = true := by simpa using hold
  rw [replaceAll, replaceAll, if_neg hempty, if_neg hempty,
    substitute_append_of_some hold (Sentinel.literal_append old s)]

theorem replaceAll_nil {old : Text} (hold : old ≠ []) (new : Text) :
    replaceAll old new [] = [] := by
  rw [replaceAll, if_neg (by simpa using hold)]
  rfl

/-- A character at which no occurrence begins stays. -/
theorem replaceAll_cons {old : Text} (hold : old ≠ []) (new : Text) {c : Char} {s : Text}
    (h : ¬ old <+: c :: s) : replaceAll old new (c :: s) = c :: replaceAll old new s := by
  have hempty : ¬ old.isEmpty = true := by simpa using hold
  have hnone : literal old (c :: s) = none := by
    rw [Option.eq_none_iff_forall_ne_some]
    intro n hn
    exact h (Sentinel.prefix_of_literal hn)
  rw [replaceAll, replaceAll, if_neg hempty, if_neg hempty, substitute, substituteFrom, hnone]
  rfl

/-- Induction over what replacing does: at every place it replaces an occurrence or
keeps one character. -/
theorem replace_induction {old : Text} (hold : old ≠ []) {motive : Text → Prop}
    (nil : motive []) (replace : ∀ s, motive s → motive (old ++ s))
    (keep : ∀ c s, ¬ old <+: c :: s → motive s → motive (c :: s)) (s : Text) : motive s := by
  induction hn : s.length using Nat.strong_induction_on generalizing s with
  | h n ih =>
    subst hn
    by_cases hfront : old <+: s
    · obtain ⟨rest, rfl⟩ := hfront
      refine replace rest (ih rest.length ?_ rest rfl)
      have := List.length_pos_iff.mpr hold
      rw [List.length_append]
      omega
    · cases s with
      | nil => exact nil
      | cons c s => exact keep c s hfront (ih s.length (by simp) s rfl)

/-- What is put in neither holds `q`, nor begins like the back of it, nor ends like
the front of it. -/
structure Foreign (q new : Text) : Prop where
  inside : ¬ q <:+: new
  back : ∀ t, t ≠ [] → t <:+ q.tail → ∀ more, ¬ t <+: new ++ more
  front : ∀ t, t ≠ [] → t <+: q.dropLast → ¬ t <:+ new

/-- The back of `q` is found only where it was before. -/
theorem Foreign.prefix_of_replaceAll {q old new : Text} (h : Foreign q new) (hold : old ≠ [])
    {t s : Text} (ht : t <:+ q.tail) (hpre : t <+: replaceAll old new s) : t <+: s := by
  induction s using replace_induction hold generalizing t with
  | nil => rwa [replaceAll_nil hold] at hpre
  | replace s ih =>
    rw [replaceAll_append hold] at hpre
    by_cases hnil : t = []
    · rw [hnil]
      exact List.nil_prefix
    · exact absurd hpre (h.back t hnil ht _)
  | keep c s hc ih =>
    rw [replaceAll_cons hold new hc] at hpre
    cases t with
    | nil => exact List.nil_prefix
    | cons d t =>
      obtain ⟨rfl, hrest⟩ := List.cons_prefix_cons.mp hpre
      exact List.cons_prefix_cons.mpr ⟨rfl, ih ((List.suffix_cons d t).trans ht) hrest⟩

/-- **Replacing makes nothing anew** to which what it puts in is foreign, and it leaves
nothing of what it replaces. -/
theorem Foreign.not_infix_replaceAll {q old new : Text} (h : Foreign q new) (hold : old ≠ [])
    {s : Text} (hq : q = old ∨ ¬ q <:+: s) : ¬ q <:+: replaceAll old new s := by
  have hne : q ≠ [] := by
    rintro rfl
    exact h.inside List.nil_infix
  induction s using replace_induction hold with
  | nil =>
    rw [replaceAll_nil hold, List.infix_nil]
    exact hne
  | replace s ih =>
    have hrest : q = old ∨ ¬ q <:+: s :=
      hq.imp_right fun hs h => hs (h.trans (List.suffix_append old s).isInfix)
    rw [replaceAll_append hold, List.infix_append_iff_ne_nil]
    rintro (hnew | hs | ⟨q₁, q₂, hq₁, hq₂, rfl, hfront, -⟩)
    · exact h.inside hnew
    · exact ih hrest hs
    · -- a front of `q` would stand at the end of what is put in
      refine h.front q₁ hq₁ ?_ hfront
      rw [List.dropLast_append_of_ne_nil hq₂]
      exact List.prefix_append ..
  | keep c s hc ih =>
    have hrest : q = old ∨ ¬ q <:+: s :=
      hq.imp_right fun hs h => hs (h.trans (List.suffix_cons c s).isInfix)
    rw [replaceAll_cons hold new hc, List.infix_cons_iff]
    rintro (hfront | hs)
    · -- the characters behind the first one are where they were before
      obtain ⟨d, t, rfl⟩ := List.exists_cons_of_ne_nil hne
      obtain ⟨rfl, ht⟩ := List.cons_prefix_cons.mp hfront
      have hkept : d :: t <+: d :: s :=
        List.cons_prefix_cons.mpr ⟨rfl, h.prefix_of_replaceAll hold List.suffix_rfl ht⟩
      rcases hq with rfl | hq
      · exact hc hkept
      · exact hq hkept.isInfix
    · exact ih hrest hs

/-- The first character stays, or it is the first one of what is put in. -/
theorem head?_replaceAll {old new : Text} (hold : old ≠ []) (hnew : new ≠ []) (s : Text) :
    (replaceAll old new s).head? = s.head? ∨
      (old <+: s ∧ (replaceAll old new s).head? = new.head?) := by
  by_cases hfront : old <+: s
  · obtain ⟨rest, rfl⟩ := hfront
    rw [replaceAll_append hold, List.head?_append_of_ne_nil _ hnew]
    exact .inr ⟨List.prefix_append .., rfl⟩
  · cases s with
    | nil => exact .inl (by rw [replaceAll_nil hold])
    | cons c s =>
      rw [replaceAll_cons hold new hfront]
      exact .inl rfl

/-- Replacing leaves nothing of the empty text, and only of that. -/
theorem replaceAll_eq_nil_iff {old new : Text} (hold : old ≠ []) (hnew : new ≠ []) {s : Text} :
    replaceAll old new s = [] ↔ s = [] := by
  constructor
  · intro h
    have hhead := head?_replaceAll hold hnew s
    rw [h] at hhead
    rcases hhead with hhead | ⟨-, hhead⟩
    · exact List.head?_eq_none_iff.mp hhead.symm
    · exact absurd (List.head?_eq_none_iff.mp hhead.symm) hnew
  · rintro rfl
    exact replaceAll_nil hold new

/-- The last character stays, or it is the last one of what is put in. -/
theorem getLast?_replaceAll {old new : Text} (hold : old ≠ []) (hnew : new ≠ []) (s : Text) :
    (replaceAll old new s).getLast? = s.getLast? ∨
      (replaceAll old new s).getLast? = new.getLast? := by
  induction s using replace_induction hold with
  | nil => exact .inl (by rw [replaceAll_nil hold])
  | replace s ih =>
    rw [replaceAll_append hold]
    by_cases hs : s = []
    · rw [hs, replaceAll_nil hold, List.append_nil]
      exact .inr rfl
    · have hs' : replaceAll old new s ≠ [] := fun h => hs ((replaceAll_eq_nil_iff hold hnew).mp h)
      rwa [List.getLast?_append_of_ne_nil _ hs', List.getLast?_append_of_ne_nil _ hs]
  | keep c s hc ih =>
    rw [replaceAll_cons hold new hc]
    by_cases hs : s = []
    · rw [hs, replaceAll_nil hold]
      exact .inl rfl
    · have hs' : replaceAll old new s ≠ [] := fun h => hs ((replaceAll_eq_nil_iff hold hnew).mp h)
      rwa [List.getLast?_cons_of_ne_nil hs', List.getLast?_cons_of_ne_nil hs]

end Text

/-! ## Escapes -/

namespace Sentinel

/-- Both styles escape a quote, or a terminator whose first character its escape
keeps. -/
theorem lead_of_mem_escapes (k : Codec) {style : Style} {a : Sentinel} (ha : a ∈ style.escapes) :
    a.isQuote = true ∨
      ∃ c more, c ∈ Text.hooks ∧ a.sense = c :: more ∧ a.lead k [] = [c] := by
  cases style <;> simp only [Style.escapes, List.mem_cons, List.not_mem_nil, or_false] at ha
  · rcases ha with rfl | rfl | rfl
    · exact .inl rfl
    · exact .inl rfl
    · exact .inr ⟨'-', _, by decide, rfl, rfl⟩
  · rcases ha with rfl | rfl | rfl | rfl
    · exact .inl rfl
    · exact .inl rfl
    · exact .inr ⟨'*', _, by decide, rfl, rfl⟩
    · exact .inr ⟨'<', _, by decide, rfl, rfl⟩

/-- The characters that escapes end with. -/
def escapeEnds : Text :=
  ['1', '2', '>', '/']

/-- An escape ends with one of a few characters. -/
theorem getLast?_text_of_mem_escapes (k : Codec) {style : Style} {a : Sentinel}
    (ha : a ∈ style.escapes) : ∃ c ∈ escapeEnds, (a.text k []).getLast? = some c := by
  have hlabel : ∃ c ∈ escapeEnds, a.label.toList.getLast? = some c := by
    cases style <;> simp only [Style.escapes, List.mem_cons, List.not_mem_nil, or_false] at ha
    · rcases ha with rfl | rfl | rfl <;> decide
    · rcases ha with rfl | rfl | rfl | rfl <;> decide
  obtain ⟨c, hc, hlast⟩ := hlabel
  have htrail : (a.trail k).getLast? = some c := by
    rw [trail]
    split
    · exact hlast
    · rw [List.getLast?_append, List.getLast?_cons, hlast]
      rfl
  refine ⟨c, hc, ?_⟩
  rw [text_eq, List.getLast?_append, List.getLast?_cons, htrail]
  rfl

/-- What is forbidden is not empty, and it holds neither a percent sign nor letters or
digits. -/
theorem chars_of_mem_forbidden {style : Style} {q : Text} (hq : q ∈ style.forbidden) :
    q ≠ [] ∧ ∀ c ∈ q, c ≠ '%' ∧ c.isAlphanum = false := by
  cases style <;> revert q <;> decide

/-- Nothing forbidden occurs behind the nonce. -/
theorem not_infix_label {style style' : Style} {a : Sentinel} (ha : a ∈ style'.escapes)
    {q : Text} (hq : q ∈ style.forbidden) : ¬ q <:+: '-' :: a.label.toList := by
  have hall : ∀ style style' : Style, ∀ a ∈ style'.escapes, ∀ q ∈ style.forbidden,
      ¬ q <:+: '-' :: a.label.toList := by
    intro style style'
    cases style <;> cases style' <;> decide
  exact hall style style' a ha q hq

/-- Nothing forbidden begins in a nonce. -/
theorem prefix_ne_nonce (k : Codec) {style : Style} {q : Text} (hq : q ∈ style.forbidden) {t : Text}
    (hne : t ≠ []) (ht : t ⊆ q) (more : Text) : ¬ t <+: k.nonce ++ more := by
  obtain ⟨c, t, rfl⟩ := List.exists_cons_of_ne_nil hne
  obtain ⟨d, nonce, hnonce⟩ := List.exists_cons_of_ne_nil k.valid.1
  intro hpre
  rw [hnonce, List.cons_append] at hpre
  obtain ⟨rfl, -⟩ := List.cons_prefix_cons.mp hpre
  have halnum := k.isAlphanum_of_mem_nonce (c := c) (by simp [hnonce])
  rw [((chars_of_mem_forbidden hq).2 c (ht (List.mem_cons_self ..))).2] at halnum
  cases halnum

/-- Something forbidden that occurs behind a nonce begins behind it. -/
theorem infix_of_infix_nonce {k : Codec} {style : Style} {q : Text} (hq : q ∈ style.forbidden)
    {more : Text} (h : q <:+: k.nonce ++ more) : q <:+: more := by
  obtain ⟨hne, hchars⟩ := chars_of_mem_forbidden hq
  obtain ⟨c, q, rfl⟩ := List.exists_cons_of_ne_nil hne
  have hc : c ∉ k.nonce := k.notMem_nonce (hchars c (List.mem_cons_self ..)).2
  rcases List.infix_append_iff_ne_nil.mp h with h | h | ⟨q₁, q₂, hq₁, -, hsplit, hback, -⟩
  · exact absurd (h.subset (List.mem_cons_self ..)) hc
  · exact h
  · obtain ⟨d, q₁, rfl⟩ := List.exists_cons_of_ne_nil hq₁
    obtain ⟨rfl, -⟩ := List.cons.inj hsplit
    exact absurd (hback.subset (List.mem_cons_self ..)) hc

/-- **No escape holds anything forbidden**, in either style. -/
theorem not_infix_text (k : Codec) {style style' : Style} {a : Sentinel} (ha : a ∈ style'.escapes)
    {q : Text} (hq : q ∈ style.forbidden) : ¬ q <:+: a.text k [] := by
  obtain ⟨hne, hchars⟩ := chars_of_mem_forbidden hq
  have hlabel := not_infix_label ha hq
  have hnil : ¬ q <:+: [] := fun h => hne (List.infix_nil.mp h)
  rw [text_eq]
  intro h
  -- it would have to lie on one side of the percent sign
  rcases infix_append_cons_of_notMem (fun hp => (hchars '%' hp).1 rfl) h with h | h
  · rcases lead_of_mem_escapes k ha with hquote | ⟨c, -, hc, -, hlead⟩
    · rw [lead_of_isQuote k [] hquote, ← List.append_nil k.nonce] at h
      exact hnil (infix_of_infix_nonce hq h)
    · rw [hlead] at h
      have hall : ∀ q ∈ style.forbidden, ∀ c ∈ Text.hooks, ¬ q <:+: [c] := by
        cases style <;> decide
      exact hall q hq c hc h
  · rw [trail] at h
    split at h
    · exact hlabel (h.trans (List.suffix_cons ..).isInfix)
    · exact hlabel (infix_of_infix_nonce hq h)

/-- **An escape is foreign to all that is forbidden**, in either style. -/
theorem foreign_text (k : Codec) {style style' : Style} {a : Sentinel} (ha : a ∈ style'.escapes)
    {q : Text} (hq : q ∈ style.forbidden) : Text.Foreign q (a.text k []) := by
  refine ⟨not_infix_text k ha hq, ?_, ?_⟩
  · intro t hne ht more hpre
    have hsub : t ⊆ q := fun c hc => List.mem_of_mem_tail (ht.subset hc)
    rw [text_eq, List.append_assoc] at hpre
    rcases lead_of_mem_escapes k ha with hquote | ⟨c, -, hc, -, hlead⟩
    · rw [lead_of_isQuote k [] hquote] at hpre
      exact prefix_ne_nonce k hq hne hsub _ hpre
    · -- all of it is the first character, which ends nothing forbidden
      rw [hlead] at hpre
      obtain ⟨d, t, rfl⟩ := List.exists_cons_of_ne_nil hne
      obtain ⟨rfl, hrest⟩ := List.cons_prefix_cons.mp hpre
      cases t with
      | cons e t =>
        obtain ⟨rfl, -⟩ := List.cons_prefix_cons.mp hrest
        exact ((chars_of_mem_forbidden hq).2 '%' (hsub (by simp))).1 rfl
      | nil =>
        have hall : ∀ q ∈ style.forbidden, ∀ d ∈ Text.hooks, ¬ [d] <:+ q.tail := by
          cases style <;> decide
        exact hall q hq d hc ht
  · intro t hne ht hsuffix
    -- the last character of what is put in stands in no forbidden text before its end
    obtain ⟨c, hc, hlast⟩ := getLast?_text_of_mem_escapes k ha
    have hlast' : t.getLast? = some c := by
      obtain ⟨lead, htext⟩ := hsuffix
      rwa [← htext, List.getLast?_append_of_ne_nil _ hne] at hlast
    have hall : ∀ q ∈ style.forbidden, ∀ c ∈ escapeEnds, c ∉ q.dropLast := by
      cases style <;> decide
    exact hall q hq c hc (ht.subset (List.mem_of_getLast? hlast'))

end Sentinel

/-! ## Encoded text -/

namespace Codec

/-- Encoding puts in one escape after the other. -/
theorem encode_eq_foldl (k : Codec) (style : Style) (s : Text) :
    k.encode style s =
      style.escapes.foldl (fun s a => Text.replaceAll a.sense (a.text k []) s) s := by
  cases style <;> rfl

/-- What every single escape preserves holds of the encoded text. -/
theorem encode_induction (k : Codec) (style : Style) {motive : Text → Prop} {s : Text}
    (start : motive s)
    (step : ∀ a ∈ style.escapes, ∀ t, motive t → motive (Text.replaceAll a.sense (a.text k []) t)) :
    motive (k.encode style s) := by
  rw [encode_eq_foldl]
  exact List.foldlRecOn _ _ start fun t ht a ha => step a ha t ht

/-- Every escape stands for something. -/
theorem sense_ne_nil_of_mem_escapes {style : Style} {a : Sentinel} (ha : a ∈ style.escapes) :
    a.sense ≠ [] := by
  cases style <;> revert a <;> decide

/-- **Nothing forbidden is left in encoded text.** -/
theorem not_infix_encode (k : Codec) {style : Style} {q : Text} (hq : q ∈ style.forbidden)
    (s : Text) : ¬ q <:+: k.encode style s := by
  -- it is gone once its own escape is put in, and no other escape brings it back
  have hfold : ∀ (as : List Sentinel) (t : Text), (∀ a ∈ as, a ∈ style.escapes) →
      q ∈ as.map Sentinel.sense ∨ ¬ q <:+: t →
      ¬ q <:+: as.foldl (fun s a => Text.replaceAll a.sense (a.text k []) s) t := by
    intro as
    induction as with
    | nil => simp
    | cons a as ih =>
      intro t has ht
      obtain ⟨ha, has⟩ := List.forall_mem_cons.mp has
      have hstep := (Sentinel.foreign_text k ha hq).not_infix_replaceAll
        (sense_ne_nil_of_mem_escapes ha) (s := t)
      refine ih _ has ?_
      rcases ht with ht | ht
      · rcases List.mem_cons.mp ht with hq' | hq'
        · exact .inr (hstep (.inl hq'))
        · exact .inl hq'
      · exact .inr (hstep (.inr ht))
  rw [encode_eq_foldl]
  exact hfold style.escapes s (fun a ha => ha) (.inl hq)

theorem text_ne_nil (k : Codec) (a : Sentinel) : a.text k [] ≠ [] :=
  Symbol.text_ne_nil k (.whole a [])

/-- Encoding leaves nothing of the empty text only. -/
theorem encode_ne_nil (k : Codec) (style : Style) {s : Text} (hs : s ≠ []) :
    k.encode style s ≠ [] := by
  refine k.encode_induction style (motive := (· ≠ [])) hs fun a ha t ht h => ht ?_
  exact (Text.replaceAll_eq_nil_iff (sense_ne_nil_of_mem_escapes ha) (k.text_ne_nil a)).mp h

/-- An encoded text begins as it did, or with a letter or a digit. -/
theorem head?_encode (k : Codec) (style : Style) (s : Text) :
    (k.encode style s).head? = s.head? ∨
      ∃ c, c.isAlphanum = true ∧ (k.encode style s).head? = some c := by
  refine k.encode_induction style (motive := fun t => t.head? = s.head? ∨
    ∃ c, c.isAlphanum = true ∧ t.head? = some c) (.inl rfl) fun a ha t ht => ?_
  rcases Text.head?_replaceAll (sense_ne_nil_of_mem_escapes ha) (k.text_ne_nil a) t with
    h | ⟨hfront, h⟩
  · rwa [h]
  · rw [h, Sentinel.text_eq]
    rcases Sentinel.lead_of_mem_escapes k ha with hquote | ⟨c, more, -, hsense, hlead⟩
    · -- the nonce of a quote
      right
      rw [Sentinel.lead_of_isQuote k [] hquote]
      obtain ⟨d, nonce, hnonce⟩ := List.exists_cons_of_ne_nil k.valid.1
      exact ⟨d, k.isAlphanum_of_mem_nonce (by simp [hnonce]), by simp [hnonce]⟩
    · -- a terminator keeps its first character
      rw [hsense] at hfront
      obtain ⟨rest, rfl⟩ := hfront
      rw [hlead]
      exact ht

/-- An encoded text ends as it did, or with the end of an escape. -/
theorem getLast?_encode (k : Codec) (style : Style) (s : Text) :
    (k.encode style s).getLast? = s.getLast? ∨
      ∃ c ∈ Sentinel.escapeEnds, (k.encode style s).getLast? = some c := by
  refine k.encode_induction style (motive := fun t => t.getLast? = s.getLast? ∨
    ∃ c ∈ Sentinel.escapeEnds, t.getLast? = some c) (.inl rfl) fun a ha t ht => ?_
  rcases Text.getLast?_replaceAll (sense_ne_nil_of_mem_escapes ha) (k.text_ne_nil a) t with h | h
  · rwa [h]
  · rw [h]
    exact .inr (Sentinel.getLast?_text_of_mem_escapes k ha)

/-- **Encoding makes no new seams.** -/
theorem not_straddles_encode (k : Codec) (style : Style) {x y : Text}
    (h : ¬ Text.Straddles x y) : ¬ Text.Straddles (k.encode style x) (k.encode style y) := by
  rintro ⟨a, ha, b, hb, hab⟩
  -- no sentinel ends or begins with a character that a seam divides, so the two at the
  -- seam are those that were there
  have hfirst : ∀ p ∈ Text.divisions, p.1 ∉ Sentinel.escapeEnds := by decide
  have hsecond : ∀ p ∈ Text.divisions, p.2.isAlphanum = false := by decide
  have hx : a ∈ x.getLast? := by
    rcases k.getLast?_encode style x with hlast | ⟨c, hc, hlast⟩
    · rwa [← hlast]
    · rw [hlast] at ha
      obtain rfl := Option.some.inj ha
      exact absurd hc (hfirst _ hab)
  have hy : b ∈ y.head? := by
    rcases k.head?_encode style y with hhead | ⟨c, hc, hhead⟩
    · rwa [← hhead]
    · rw [hhead] at hb
      obtain rfl := Option.some.inj hb
      rw [hsecond _ hab] at hc
      cases hc
  exact h ⟨a, hx, b, hy, hab⟩

end Codec

end TemplateTidy
