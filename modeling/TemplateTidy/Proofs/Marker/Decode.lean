import TemplateTidy.Proofs.Marker.Symbol

/-!
# What decoding makes of disguised text

Decoding replaces nine kinds of sentinels one after the other, each of them
throughout the text. Each replacement finds exactly the symbols of its kind
(`substitute_flat`): it neither overlooks one, nor takes parts of two for one.
So the order of the replacements does not matter, and decoding gives every
symbol its meaning.

The one condition is that no fragment of the sentinels occurs in what the
symbols stand for. It is stated for the symbols as a whole, so that also
characters that come together when a sentinel between them is taken away are
covered.

Main results: `Symbol.exists_whole_of_flat`, `Codec.decode_flat`.
-/

namespace TemplateTidy

/-! ## Substitution -/

namespace Text

/-- A recogniser that has matched a front goes on behind it. -/
theorem substituteFrom_length_append (r : Recogniser) (new t s : Text) :
    substituteFrom r new t.length (t ++ s) = substituteFrom r new 0 s := by
  induction t with
  | nil => rfl
  | cons c t ih => rw [List.length_cons, List.cons_append, substituteFrom, ih]

/-- An occurrence at the front is replaced. -/
theorem substitute_append_of_some {r : Recogniser} {new t s : Text} (ht : t ≠ [])
    (h : r (t ++ s) = some t.length) : substitute r new (t ++ s) = new ++ substitute r new s := by
  cases t with
  | nil => exact absurd rfl ht
  | cons c t =>
    rw [List.cons_append] at h ⊢
    rw [substitute, substituteFrom, h]
    simp only [List.length_cons]
    rw [substituteFrom_length_append, substitute]

/-- A front in which no occurrence begins is left alone. -/
theorem substitute_append_of_none {r : Recogniser} {new t s : Text}
    (h : ∀ x y, t = x ++ y → y ≠ [] → r (y ++ s) = none) :
    substitute r new (t ++ s) = t ++ substitute r new s := by
  induction t with
  | nil => rfl
  | cons c t ih =>
    have hhead := h [] (c :: t) rfl (List.cons_ne_nil _ _)
    have htail := ih fun x y hxy hy => h (c :: x) y (by rw [hxy, List.cons_append]) hy
    rw [List.cons_append] at hhead
    rw [List.cons_append, List.cons_append, substitute, substituteFrom, hhead]
    simp only
    rw [substitute] at htail
    rw [htail]

end Text

/-! ## Recognising sentinels -/

namespace Sentinel

/-- How decoding finds a sentinel. -/
def recogniser (k : Codec) : Sentinel → Recogniser
  | markupStart => k.markupStart
  | a => Text.literal (a.text k [])

/-- The order in which decoding replaces the sentinels. -/
def order : List Sentinel :=
  [markupEnd, markupStart, codeEnd, codeStart, markupTerminator, codeTerminator, endTagOpen,
   singleQuote, doubleQuote]

/-- Decoding replaces every sentinel. -/
theorem mem_order (a : Sentinel) : a ∈ order := by
  cases a <;> decide

/-- The steps of decoding are those of the sentinels in their order. -/
theorem decodeSteps_eq (k : Codec) :
    k.decodeSteps = order.map fun a => (a.recogniser k, a.sense) := rfl

/-- A literal is recognised where it stands. -/
theorem literal_append (pat s : Text) : Text.literal pat (pat ++ s) = some pat.length := by
  simp [Text.literal, List.isPrefixOf_iff_prefix]

/-- Where a literal is recognised it stands. -/
theorem prefix_of_literal {pat s : Text} {n : Nat} (h : Text.literal pat s = some n) :
    pat <+: s := by
  unfold Text.literal at h
  split at h
  · rename_i hpre
    exact List.isPrefixOf_iff_prefix.mp hpre
  · cases h

/-- The characters of a kind at the front are counted up to the first one of another kind. -/
theorem leading_append {p : Char → Bool} {gap s : Text} {c : Char}
    (hgap : gap.all p = true) (hc : p c = false) :
    Text.leading p (gap ++ c :: s) = gap.length := by
  rw [Text.leading_eq_length_takeWhile, List.takeWhile_append_of_pos (List.all_eq_true.mp hgap),
    List.takeWhile_cons_of_neg (by simp [hc]), List.append_nil]

/-- A sentinel is recognised in full. -/
theorem recogniser_text (k : Codec) {a : Sentinel} {gap : Text} (hgap : gap.all isBlank = true)
    (s : Text) : a.recogniser k (a.text k gap ++ s) = some (a.text k gap).length := by
  cases ha : a with
  | markupStart =>
    -- the mark does not begin with a blank, so the blanks that are skipped are the gap
    have hmark : ∃ m, k.startMark = '%' :: m := ⟨_, rfl⟩
    obtain ⟨m, hm⟩ := hmark
    have hblanks : Text.blanks (gap ++ k.startMark ++ s) = gap.length := by
      rw [hm, List.append_assoc, List.cons_append]
      exact leading_append hgap (by decide)
    -- the sentinel is the opening of a comment, the gap and the mark
    have htext : a.text k gap ++ s = ['<', '!', '-', '-'] ++ (gap ++ k.startMark ++ s) := by
      rw [ha, text, List.append_assoc, List.append_assoc, List.append_assoc]
    have hlength : (a.text k gap).length = 4 + gap.length + k.startMark.length := by
      rw [ha, text, List.length_append, List.length_append]
      rfl
    have hdrop : List.drop gap.length (gap ++ k.startMark ++ s) = k.startMark ++ s := by
      rw [List.append_assoc, List.drop_left]
    have hopen : "<!--".toList.isPrefixOf (['<', '!', '-', '-'] ++ (gap ++ k.startMark ++ s)) =
        true :=
      List.isPrefixOf_iff_prefix.mpr (List.prefix_append ..)
    have hfour : List.drop 4 (['<', '!', '-', '-'] ++ (gap ++ k.startMark ++ s)) =
        gap ++ k.startMark ++ s := rfl
    rw [ha] at htext hlength
    rw [recogniser, Codec.markupStart, htext, hlength, if_pos hopen]
    simp only [← List.drop_drop, hfour, hblanks, hdrop]
    rw [if_pos (List.isPrefixOf_iff_prefix.mpr (List.prefix_append _ _))]
  | _ => exact literal_append _ s

/-- Nothing but the sentinel is recognised. -/
theorem prefix_of_recogniser {k : Codec} {a : Sentinel} {s : Text} {n : Nat}
    (h : a.recogniser k s = some n) : ∃ gap, gap.all isBlank = true ∧ a.text k gap <+: s := by
  cases a with
  | markupStart =>
    rw [recogniser, Codec.markupStart] at h
    split at h
    · rename_i hopen
      obtain ⟨rest, hs⟩ := List.isPrefixOf_iff_prefix.mp hopen
      -- the opening of the comment, then white space, then the mark of the sentinel
      have hs' : ['<', '!', '-', '-'] ++ rest = s := hs
      have hfour : List.drop 4 s = rest := by rw [← hs']; rfl
      simp only at h
      split at h
      · rename_i hmark
        obtain ⟨z, hz⟩ := List.isPrefixOf_iff_prefix.mp hmark
        rw [← List.drop_drop, hfour] at hz
        refine ⟨rest.takeWhile isBlank, List.all_takeWhile, z, ?_⟩
        have hblanks : Text.blanks rest = (rest.takeWhile isBlank).length :=
          Text.leading_eq_length_takeWhile isBlank rest
        have hcut : rest.takeWhile isBlank ++ rest.drop (Text.blanks rest) = rest := by
          rw [hblanks]
          exact List.prefix_iff_eq_append.mp (List.takeWhile_prefix isBlank)
        rw [text, List.append_assoc, List.append_assoc, hz, hcut, hs']
      · cases h
    · cases h
  | _ => exact ⟨[], rfl, prefix_of_literal h⟩

/-- The escape of a quote begins with the nonce. -/
theorem lead_of_isQuote (k : Codec) (gap : Text) {a : Sentinel} (ha : a.isQuote = true) :
    a.lead k gap = k.nonce := by
  cases a with
  | doubleQuote | singleQuote => rfl
  | _ => exact Bool.noConfusion ha

end Sentinel

/-! ## Symbols under replacement -/

namespace Codec

/-- A text that holds no fragment has no part that holds one. -/
theorem collides_eq_false_of_infix {k : Codec} {s t : Text} (hst : s <:+: t)
    (h : k.collides t = false) : k.collides s = false := by
  rw [collides_eq_false_iff] at h ⊢
  exact ⟨fun hs => h.1 (hs.trans hst), fun hs => h.2 (hs.trans hst)⟩

/-- A text that does not collide has no nonce behind a percent sign. -/
theorem not_percent_nonce {k : Codec} {s a b : Text} (h : k.collides s = false)
    (hs : s = a ++ '%' :: b) : ¬ k.nonce <+: b := by
  rintro ⟨b', rfl⟩
  exact ((collides_eq_false_iff k s).mp h).1 ⟨a, b', by rw [hs]; simp⟩

/-- A text that does not collide does not begin with the nonce and a percent sign. -/
theorem not_nonce_percent {k : Codec} {s b : Text} (h : k.collides s = false) :
    s ≠ k.nonce ++ '%' :: b := by
  intro hs
  exact ((collides_eq_false_iff k s).mp h).2 ⟨[], b, by rw [hs]; simp⟩

end Codec

namespace Symbol

/-- A plain symbol with a percent sign is a percent sign. -/
theorem eq_percent {k : Codec} {σ : Symbol} {u v : Text} (hσ : σ.isPlain = true)
    (h : σ.text k = u ++ '%' :: v) : σ = plain '%' ∧ u = [] ∧ v = [] := by
  obtain ⟨c, rfl⟩ := exists_of_isPlain hσ
  rcases List.cons_eq_append_iff.mp h with ⟨rfl, hc⟩ | ⟨u', -, hu'⟩
  · obtain ⟨rfl, hv⟩ := List.cons.inj hc
    exact ⟨rfl, rfl, hv⟩
  · simp at hu'

/-- Behind a plain percent sign stands no trail of a comment or terminator. -/
theorem flat_ne_trail {k : Codec} {a : Sentinel} (ha : a.isQuote = false)
    (before : List Symbol) {after : List Symbol} {z : Text}
    (hclean : k.collides ((before ++ plain '%' :: after).flatMap sense) = false) :
    flat k after ≠ a.trail k ++ z := by
  intro h
  rw [Sentinel.trail, ha, if_neg Bool.false_ne_true, List.append_assoc, List.cons_append] at h
  refine Codec.not_percent_nonce (a := before.flatMap sense) hclean ?_ (nonce_prefix_sense h)
  rw [List.flatMap_append, List.flatMap_cons, sense, List.singleton_append]

/-- A sentinel stands on the page only where a symbol of its kind begins. -/
theorem eq_whole_of_text_prefix {k : Codec} (hk : k.Branded) {a : Sentinel} {σ : Symbol}
    {rest : List Symbol} (hv : σ.Valid) (hrest : ∀ τ ∈ rest, τ.Valid)
    (hclean : k.collides ((σ :: rest).flatMap sense) = false) {x y : Text}
    (htext : σ.text k = x ++ y) (hy : y ≠ []) {g : Text} (hg : g.all isBlank = true)
    (hpre : a.text k g <+: y ++ flat k rest) : x = [] ∧ ∃ gap, σ = whole a gap := by
  obtain ⟨z, hz⟩ := hpre
  rw [Sentinel.text_eq, List.append_assoc, List.cons_append] at hz
  -- which symbol does the percent sign of the sentinel belong to?
  rcases append_flatMap_eq_append_cons hz.symm with
    ⟨y', rfl, hbehind⟩ | ⟨before, τ, after, t₁, t₂, rfl, hτ, hlead, hbehind⟩
  · rw [← List.append_assoc] at htext
    cases hp : σ.isPlain with
    | false =>
      -- to the first one, a sentinel: both trails and then both leads are the same
      obtain ⟨hlead, rfl⟩ := eq_lead_trail k hp hv htext
      obtain ⟨b, gap, rfl, hlabel⟩ := trail_eq_of_append_eq hk hp hv hbehind
      obtain ⟨hx, rfl⟩ := same_of_lead_eq hv hlabel.symm hlead.symm
      exact ⟨hx, gap, rfl⟩
    | true =>
      -- to the first one, a plain percent sign: then the nonce stands behind it
      obtain ⟨rfl, hlead, rfl⟩ := eq_percent hp htext
      rcases List.append_eq_nil_iff.mp hlead with ⟨-, hlead⟩
      have hquote : a.isQuote = false := by
        rw [Bool.eq_false_iff]
        intro ha
        exact k.valid.1 ((Sentinel.lead_of_isQuote k g ha).symm.trans hlead)
      exact absurd hbehind.symm (flat_ne_trail hquote [] hclean)
  · have hvτ : τ.Valid := hrest τ (by simp)
    exfalso
    cases hp : τ.isPlain with
    | false =>
      -- to a later sentinel, whose lead leaves no room for that of the first
      obtain ⟨rfl, rfl⟩ := eq_lead_trail k hp hvτ hτ
      obtain ⟨b, gap, rfl, hlabel⟩ := trail_eq_of_append_eq hk hp hvτ hbehind
      obtain ⟨hnil, -⟩ := same_of_lead_eq hg hlabel hlead
      exact hy (List.append_eq_nil_iff.mp hnil).1
    | true =>
      -- to a later plain percent sign: the nonce stands behind it, or before it
      obtain ⟨rfl, rfl, rfl⟩ := eq_percent hp hτ
      rw [List.append_nil] at hlead
      cases ha : a.isQuote with
      | false => exact flat_ne_trail ha (σ :: before) hclean hbehind.symm
      | true =>
        rw [Sentinel.lead_of_isQuote k g ha] at hlead
        have hsense := sense_eq_nonce hk hv hy htext hlead
        refine Codec.not_nonce_percent (b := after.flatMap sense) hclean ?_
        rw [← List.cons_append, List.flatMap_append, hsense, List.flatMap_cons, sense,
          List.singleton_append]

/-- A sentinel is recognised only where a symbol of its kind begins. -/
theorem recogniser_eq_none {k : Codec} (hk : k.Branded) {a : Sentinel} {σ : Symbol}
    {rest : List Symbol} (hσ : ∀ gap, σ ≠ whole a gap) (hv : σ.Valid)
    (hrest : ∀ τ ∈ rest, τ.Valid) (hclean : k.collides ((σ :: rest).flatMap sense) = false)
    {x y : Text} (htext : σ.text k = x ++ y) (hy : y ≠ []) :
    a.recogniser k (y ++ flat k rest) = none := by
  rw [Option.eq_none_iff_forall_ne_some]
  intro n hn
  obtain ⟨g, hg, hpre⟩ := Sentinel.prefix_of_recogniser hn
  obtain ⟨-, gap, hgap⟩ := eq_whole_of_text_prefix hk hv hrest hclean htext hy hg hpre
  exact hσ gap hgap

/-- **Every sentinel on the page is a symbol.** -/
theorem exists_whole_of_flat {k : Codec} (hk : k.Branded) {a : Sentinel} {syms : List Symbol}
    (hv : ∀ σ ∈ syms, σ.Valid) (hclean : k.collides (syms.flatMap sense) = false) {g x z : Text}
    (hg : g.all isBlank = true) (h : flat k syms = x ++ a.text k g ++ z) :
    ∃ front gap back, syms = front ++ whole a gap :: back ∧ flat k front = x := by
  induction syms generalizing x with
  | nil =>
    have hnil := (List.append_eq_nil_iff.mp (List.append_eq_nil_iff.mp h.symm).1).2
    exact absurd hnil (text_ne_nil k (whole a g))
  | cons σ syms ih =>
    have hvsyms : ∀ τ ∈ syms, τ.Valid := fun τ hτ => hv τ (List.mem_cons_of_mem _ hτ)
    have hsyms : k.collides (syms.flatMap sense) = false :=
      Codec.collides_eq_false_of_infix (List.suffix_append σ.sense _).isInfix hclean
    rw [flat_cons, List.append_assoc] at h
    rcases List.append_eq_append_iff.mp h with ⟨x', rfl, hx'⟩ | ⟨y, htext, hy⟩
    · -- the symbol stands before the sentinel
      obtain ⟨front, gap, back, rfl, hfront⟩ := ih hvsyms hsyms (by rw [hx', List.append_assoc])
      exact ⟨σ :: front, gap, back, rfl, by rw [flat_cons, hfront]⟩
    · by_cases hnil : y = []
      · -- the symbol ends where the sentinel begins
        subst hnil
        rw [List.append_nil] at htext
        obtain ⟨front, gap, back, rfl, hfront⟩ := ih (x := []) hvsyms hsyms hy.symm
        exact ⟨σ :: front, gap, back, rfl, by rw [flat_cons, hfront, htext, List.append_nil]⟩
      · -- the sentinel begins within the symbol: it can only be the symbol itself
        obtain ⟨rfl, gap, rfl⟩ := eq_whole_of_text_prefix hk (hv σ (List.mem_cons_self ..)) hvsyms
          hclean htext hnil hg ⟨z, hy⟩
        exact ⟨[], gap, syms, rfl, rfl⟩

/-- The symbols that are left of a symbol once the sentinels of one kind are
replaced. -/
def reveal (a : Sentinel) : Symbol → List Symbol
  | whole b gap => if b = a then a.sense.map plain else [whole b gap]
  | σ => [σ]

theorem reveal_self (a : Sentinel) (gap : Text) : reveal a (whole a gap) = a.sense.map plain :=
  if_pos rfl

/-- Symbols of other kinds are left alone. -/
theorem reveal_of_ne {a : Sentinel} {σ : Symbol} (h : ∀ gap, σ ≠ whole a gap) :
    reveal a σ = [σ] := by
  cases σ with
  | whole b gap => exact if_neg fun hb => h gap (by rw [hb])
  | plain c => rfl
  | torn stem blank => rfl

/-- Either the symbol is of a kind or it is revealed as itself. -/
theorem reveal_cases (a : Sentinel) (σ : Symbol) :
    (∃ gap, σ = whole a gap ∧ reveal a σ = a.sense.map plain) ∨
      ((∀ gap, σ ≠ whole a gap) ∧ reveal a σ = [σ]) := by
  by_cases h : ∃ gap, σ = whole a gap
  · obtain ⟨gap, rfl⟩ := h
    exact .inl ⟨gap, rfl, reveal_self a gap⟩
  · have hne : ∀ gap, σ ≠ whole a gap := fun gap hgap => h ⟨gap, hgap⟩
    exact .inr ⟨hne, reveal_of_ne hne⟩

/-- Revealing keeps symbols valid. -/
theorem valid_reveal {a : Sentinel} {σ : Symbol} (hσ : σ.Valid) : ∀ τ ∈ reveal a σ, τ.Valid := by
  intro τ hτ
  rcases reveal_cases a σ with ⟨gap, -, hreveal⟩ | ⟨-, hreveal⟩
  · rw [hreveal, List.mem_map] at hτ
    obtain ⟨c, -, rfl⟩ := hτ
    trivial
  · rw [hreveal, List.mem_singleton] at hτ
    rwa [hτ]

/-- Revealing a symbol keeps what it stands for. -/
theorem sense_reveal (a : Sentinel) (σ : Symbol) : (reveal a σ).flatMap sense = σ.sense := by
  rcases reveal_cases a σ with ⟨gap, rfl, hreveal⟩ | ⟨-, hreveal⟩
  · rw [hreveal, sense_map_plain, sense]
  · rw [hreveal, List.flatMap_singleton]

/-- Revealing a symbol keeps what decoding makes of it. -/
theorem meaning_reveal (k : Codec) (a : Sentinel) (σ : Symbol) :
    (reveal a σ).flatMap (meaning k) = σ.meaning k := by
  rcases reveal_cases a σ with ⟨gap, rfl, hreveal⟩ | ⟨-, hreveal⟩
  · rw [hreveal, meaning_map_plain, meaning]
  · rw [hreveal, List.flatMap_singleton]

/-- **A replacement finds the symbols of its kind.** -/
theorem substitute_flat {k : Codec} (hk : k.Branded) (a : Sentinel) {syms : List Symbol}
    (hv : ∀ σ ∈ syms, σ.Valid) (hclean : k.collides (syms.flatMap sense) = false) :
    Text.substitute (a.recogniser k) a.sense (flat k syms) = flat k (syms.flatMap (reveal a)) := by
  induction syms with
  | nil => rfl
  | cons σ syms ih =>
    have hvσ : σ.Valid := hv σ (List.mem_cons_self ..)
    have hvsyms : ∀ τ ∈ syms, τ.Valid := fun τ hτ => hv τ (List.mem_cons_of_mem _ hτ)
    have hsyms : k.collides (syms.flatMap sense) = false :=
      Codec.collides_eq_false_of_infix (List.suffix_append σ.sense _).isInfix hclean
    have htail := ih hvsyms hsyms
    rw [flat_cons, List.flatMap_cons, flat_append]
    rcases reveal_cases a σ with ⟨gap, rfl, hreveal⟩ | ⟨hne, hreveal⟩
    · -- a symbol of the kind is recognised in full, any other nowhere
      rw [hreveal, flat_map_plain, Text.substitute_append_of_some (text_ne_nil k _), htail]
      exact Sentinel.recogniser_text k hvσ _
    · rw [hreveal, Text.substitute_append_of_none, htail, flat_cons, flat_nil, List.append_nil]
      intro x y hxy hy
      exact recogniser_eq_none hk hne hvσ hvsyms hclean hxy hy

/-! ## All replacements -/

/-- The symbols that are left once the sentinels of several kinds are replaced. -/
def revealAll : List Sentinel → List Symbol → List Symbol
  | [], syms => syms
  | a :: kinds, syms => revealAll kinds (syms.flatMap (reveal a))

/-- Several replacements, one after the other. -/
theorem foldl_substitute_flat {k : Codec} (hk : k.Branded) (kinds : List Sentinel)
    {syms : List Symbol} (hv : ∀ σ ∈ syms, σ.Valid)
    (hclean : k.collides (syms.flatMap sense) = false) :
    (kinds.map fun a => (a.recogniser k, a.sense)).foldl
        (fun s (r, new) => Text.substitute r new s) (flat k syms) =
      flat k (revealAll kinds syms) := by
  induction kinds generalizing syms with
  | nil => rfl
  | cons a kinds ih =>
    rw [List.map_cons, List.foldl_cons]
    simp only
    rw [substitute_flat hk a hv hclean, ih, revealAll]
    -- what is left is valid and has the same sense, so the next replacement goes through
    · intro τ hτ
      obtain ⟨σ, hσ, hmem⟩ := List.mem_flatMap.mp hτ
      exact valid_reveal (hv σ hσ) τ hmem
    · rwa [List.flatMap_assoc, List.flatMap_congr fun σ _ => sense_reveal a σ]

/-- No sentinel of the kinds that were replaced is left, and none has come in. -/
theorem of_mem_revealAll {kinds : List Sentinel} {syms : List Symbol} {b : Sentinel} {gap : Text}
    (h : whole b gap ∈ revealAll kinds syms) : b ∉ kinds ∧ whole b gap ∈ syms := by
  induction kinds generalizing syms with
  | nil => exact ⟨List.not_mem_nil, h⟩
  | cons a kinds ih =>
    obtain ⟨hb, hmem⟩ := ih h
    obtain ⟨σ, hσ, hτ⟩ := List.mem_flatMap.mp hmem
    rcases reveal_cases a σ with ⟨g, rfl, hreveal⟩ | ⟨hne, hreveal⟩
    · rw [hreveal] at hτ
      simp at hτ
    · rw [hreveal, List.mem_singleton] at hτ
      subst hτ
      refine ⟨?_, hσ⟩
      rw [List.mem_cons]
      rintro (rfl | hmem)
      · exact hne gap rfl
      · exact hb hmem

/-- Revealing symbols, kind by kind, keeps what decoding makes of them. -/
theorem meaning_revealAll (k : Codec) (kinds : List Sentinel) (syms : List Symbol) :
    (revealAll kinds syms).flatMap (meaning k) = syms.flatMap (meaning k) := by
  induction kinds generalizing syms with
  | nil => rfl
  | cons a kinds ih =>
    rw [revealAll, ih, List.flatMap_assoc, List.flatMap_congr fun σ _ => meaning_reveal k a σ]

end Symbol

/-- **Decoding gives every symbol its meaning.** -/
theorem Codec.decode_flat {k : Codec} (hk : k.Branded) {syms : List Symbol}
    (hv : ∀ σ ∈ syms, σ.Valid) (hclean : k.collides (syms.flatMap Symbol.sense) = false) :
    k.decode (Symbol.flat k syms) = syms.flatMap (Symbol.meaning k) := by
  rw [Codec.decode, Sentinel.decodeSteps_eq, Symbol.foldl_substitute_flat hk _ hv hclean,
    ← Symbol.meaning_revealAll k Sentinel.order, Symbol.flat]
  -- no whole sentinel is left, and all else means what it is
  refine List.flatMap_congr fun σ hσ => ?_
  cases σ with
  | plain c => rfl
  | torn stem blank => rfl
  | whole b gap => exact absurd (Sentinel.mem_order b) (Symbol.of_mem_revealAll hσ).1

/-- Fresh symbols are decoded to their sense. -/
theorem Codec.decode_flat_fresh {k : Codec} (hk : k.Branded) {syms : List Symbol} {s : Text}
    (hfresh : ∀ σ ∈ syms, σ.Fresh) (hsense : syms.flatMap Symbol.sense = s)
    (hs : k.collides s = false) : k.decode (Symbol.flat k syms) = s := by
  rw [decode_flat hk (fun σ hσ => (hfresh σ hσ).valid) (hsense ▸ hs), ← hsense]
  exact List.flatMap_congr fun σ hσ => (hfresh σ hσ).meaning_eq k

end TemplateTidy
