import TemplateTidy.Proofs.Marker.Barrier

/-!
# Encoded text as symbols

Encoding replaces quotes and terminators by escapes, one kind after the other.
No replacement touches the escapes that are already there: the escape of a quote
holds none of the characters that are looked for, and the escape of a terminator
begins with a character that ends none of the others. So an encoded text is a
sequence of plain characters and whole escapes that stands for the text it was
made from.

Main result: `Codec.encode_eq_flat`.
-/

namespace TemplateTidy

namespace Symbol

/-- Characters that begin no sentinel are plain where they begin a sequence of
symbols. -/
theorem map_plain_prefix {k : Codec} {syms : List Symbol} {t : Text} (ht : t <+: flat k syms)
    (hother : ∀ σ ∈ syms, σ.isPlain = false → ∀ c ∈ t, (σ.text k).head? ≠ some c) :
    t.map plain <+: syms := by
  induction syms generalizing t with
  | nil =>
    obtain rfl := List.prefix_nil.mp ht
    exact List.nil_prefix
  | cons σ syms ih =>
    cases t with
    | nil => exact List.nil_prefix
    | cons c t =>
      obtain ⟨z, hz⟩ := ht
      cases hσ : σ.isPlain with
      | true =>
        obtain ⟨d, rfl⟩ := exists_of_isPlain hσ
        obtain ⟨rfl, hrest⟩ := List.cons.inj hz
        refine List.cons_prefix_cons.mpr ⟨rfl, ih ⟨z, hrest⟩ ?_⟩
        intro τ hτ hp e he
        exact hother τ (List.mem_cons_of_mem _ hτ) hp e (List.mem_cons_of_mem _ he)
      | false =>
        -- a sentinel here would show its first character
        exfalso
        refine hother σ (List.mem_cons_self ..) hσ c (List.mem_cons_self ..) ?_
        obtain ⟨d, r, htext⟩ := List.exists_cons_of_ne_nil (text_ne_nil k σ)
        rw [flat_cons, htext, List.cons_append] at hz
        rw [htext, ← (List.cons.inj hz).1, List.head?_cons]

/-- **A replacement of plain characters.** It leaves alone the symbols that hold
no character `c` it looks for at the front and begin with none of those in
`more` that it looks for behind. -/
theorem replaceAll_flat (k : Codec) (a : Sentinel) {c : Char} {more : Text}
    (ha : a.sense = c :: more) (syms : List Symbol)
    (hother : ∀ σ ∈ syms, σ.isPlain = false →
      c ∉ σ.text k ∧ ∀ d ∈ more, (σ.text k).head? ≠ some d) :
    ∃ syms', Text.replaceAll (c :: more) (a.text k []) (flat k syms) = flat k syms' ∧
      syms'.flatMap sense = syms.flatMap sense ∧
      ∀ σ ∈ syms', σ ∈ syms ∨ σ = whole a [] := by
  have hplain : ∀ t : Text, flat k (t.map plain) = t := flat_map_plain k
  rw [Text.replaceAll, List.isEmpty_cons, if_neg Bool.false_ne_true]
  -- each round takes either a whole occurrence or one symbol off
  induction hn : syms.length using Nat.strong_induction_on generalizing syms with
  | h n ih =>
    subst hn
    by_cases hfront : (c :: more).map plain <+: syms
    · obtain ⟨rest, rfl⟩ := hfront
      have hshorter : rest.length < ((c :: more).map plain ++ rest).length := by
        rw [List.length_append, List.length_map, List.length_cons]
        omega
      obtain ⟨rest', hflat, hsense, hmem⟩ := ih rest.length hshorter rest
        (fun σ hσ => hother σ (List.mem_append_right _ hσ)) rfl
      refine ⟨whole a [] :: rest', ?_, ?_, ?_⟩
      · rw [flat_append, hplain, Text.substitute_append_of_some (List.cons_ne_nil _ _)
          (Sentinel.literal_append _ _), hflat]
        rfl
      · rw [List.flatMap_cons, List.flatMap_append, hsense, sense_map_plain, sense, ha]
      · intro σ hσ
        rcases List.mem_cons.mp hσ with rfl | hσ
        · exact .inr rfl
        · exact (hmem σ hσ).imp_left (List.mem_append_right _)
    · cases syms with
      | nil => exact ⟨[], rfl, rfl, fun σ hσ => .inl hσ⟩
      | cons σ rest =>
        obtain ⟨rest', hflat, hsense, hmem⟩ := ih rest.length (by simp) rest
          (fun τ hτ => hother τ (List.mem_cons_of_mem _ hτ)) rfl
        refine ⟨σ :: rest', ?_, ?_, ?_⟩
        · -- nothing is found in the symbol, nor across its end
          rw [flat_cons, Text.substitute_append_of_none, hflat, flat_cons]
          intro x y hxy hy
          rw [Option.eq_none_iff_forall_ne_some]
          intro n hn
          have hpre := Sentinel.prefix_of_literal hn
          obtain ⟨d, y', rfl⟩ := List.exists_cons_of_ne_nil hy
          obtain ⟨rfl, hmore⟩ := List.cons_prefix_cons.mp hpre
          cases hσ : σ.isPlain with
          | false =>
            exact (hother σ (List.mem_cons_self ..) hσ).1 (by rw [hxy]; simp)
          | true =>
            obtain ⟨e, rfl⟩ := exists_of_isPlain hσ
            obtain ⟨rfl, hx⟩ | ⟨x', -, hx'⟩ := List.cons_eq_append_iff.mp hxy
            · -- the characters behind it would be plain too
              obtain ⟨rfl, rfl⟩ := List.cons.inj hx
              refine hfront (List.cons_prefix_cons.mpr ⟨rfl, map_plain_prefix hmore ?_⟩)
              intro τ hτ hp
              exact (hother τ (List.mem_cons_of_mem _ hτ) hp).2
            · simp at hx'
        · rw [List.flatMap_cons, List.flatMap_cons, hsense]
        · intro τ hτ
          rcases List.mem_cons.mp hτ with rfl | hτ
          · exact .inl (List.mem_cons_self ..)
          · exact (hmem τ hτ).imp_left (List.mem_cons_of_mem _)

/-- The symbol is left alone when `b` is put in: its text does not hold the first character
that is looked for, and begins with none of the others. -/
def SparedBy (k : Codec) (b : Sentinel) (σ : Symbol) : Prop :=
  ∀ c more, b.sense = c :: more → c ∉ σ.text k ∧ ∀ d ∈ more, (σ.text k).head? ≠ some d

/-- **Replacements one after the other.** Each finds plain characters only, if it spares what
those before it have put in. -/
theorem foldl_replaceAll_flat (k : Codec) {as : List Sentinel} (hne : ∀ a ∈ as, a.sense ≠ [])
    (hspared : as.Pairwise fun a b => SparedBy k b (whole a [])) {syms : List Symbol}
    (hsyms : ∀ σ ∈ syms, σ.Fresh ∧ (σ.isPlain = false → ∀ b ∈ as, SparedBy k b σ)) :
    ∃ syms', as.foldl (fun s a => Text.replaceAll a.sense (a.text k []) s) (flat k syms) =
        flat k syms' ∧
      syms'.flatMap sense = syms.flatMap sense ∧ ∀ σ ∈ syms', σ.Fresh := by
  induction as generalizing syms with
  | nil => exact ⟨syms, rfl, rfl, fun σ hσ => (hsyms σ hσ).1⟩
  | cons a as ih =>
    obtain ⟨ha, hne'⟩ := List.forall_mem_cons.mp hne
    obtain ⟨hlater, hspared'⟩ := List.pairwise_cons.mp hspared
    obtain ⟨c, more, hsought⟩ := List.exists_cons_of_ne_nil ha
    obtain ⟨syms₁, hflat₁, hsense₁, hmem⟩ := replaceAll_flat k a hsought syms fun σ hσ hp =>
      (hsyms σ hσ).2 hp a (List.mem_cons_self ..) c more hsought
    -- what is there now was there before or is the escape just put in
    have hsyms₁ : ∀ σ ∈ syms₁, σ.Fresh ∧ (σ.isPlain = false → ∀ b ∈ as, SparedBy k b σ) := by
      intro σ hσ
      rcases hmem σ hσ with hσ | rfl
      · obtain ⟨hfresh, hbefore⟩ := hsyms σ hσ
        exact ⟨hfresh, fun hp b hb => hbefore hp b (List.mem_cons_of_mem _ hb)⟩
      · exact ⟨rfl, fun _ => hlater⟩
    obtain ⟨syms₂, hflat₂, hsense₂, hfresh⟩ := ih hne' hspared' hsyms₁
    refine ⟨syms₂, ?_, hsense₂.trans hsense₁, hfresh⟩
    rw [List.foldl_cons, hsought, hflat₁, hflat₂]

theorem head?_ne_of_notMem {s : Text} {c : Char} (hc : c ∉ s) : s.head? ≠ some c :=
  fun h => hc (List.mem_of_head? h)

/-- The characters that encoding looks for after double quotes. -/
def sought : Text := ['\'', '-', '>', '*', '/', '<']

/-- None of them occurs in the escape of a quote. -/
theorem notMem_quote (k : Codec) {a : Sentinel} (ha : a.isQuote = true) {c : Char}
    (hc : c ∈ sought) : c ∉ a.text k [] := by
  have hnonce : c ∉ k.nonce := by
    refine k.notMem_nonce ?_
    have hall : (sought.all fun c => !c.isAlphanum) = true := by decide
    have hc' := List.all_eq_true.mp hall c hc
    rwa [Bool.not_eq_true'] at hc'
  have hlabel : ∀ a ∈ Sentinel.all, a.isQuote = true →
      (sought.all fun c => !('%' :: a.label.toList).contains c) = true := by
    decide +kernel
  rw [Sentinel.text_eq, Sentinel.lead_of_isQuote k [] ha, Sentinel.trail, ha, if_pos rfl,
    List.mem_append]
  rintro (h | h)
  · exact hnonce h
  · have hc' := List.all_eq_true.mp (hlabel a (Sentinel.mem_all a) ha) c hc
    rw [List.contains_iff_mem.mpr h] at hc'
    exact Bool.noConfusion hc'

/-- The escape of a quote is left alone by whatever looks for terminators or quotes after it. -/
theorem sparedBy_of_isQuote (k : Codec) {a b : Sentinel} (ha : a.isQuote = true)
    (hb : b.sense ⊆ sought) : SparedBy k b (whole a []) := by
  intro c more hsense
  rw [hsense] at hb
  have hmore : ∀ d ∈ more, d ∉ a.text k [] :=
    fun d hd => notMem_quote k ha (hb (List.mem_cons_of_mem c hd))
  exact ⟨notMem_quote k ha (hb (List.mem_cons_self ..)),
    fun d hd => head?_ne_of_notMem (hmore d hd)⟩

/-- The escape of a terminator in code may stand before the opener of an end tag
is looked for. -/
theorem sparedBy_codeTerminator (k : Codec) :
    SparedBy k .endTagOpen (whole .codeTerminator []) := by
  intro c more hsense
  obtain ⟨rfl, rfl⟩ : '<' = c ∧ ['/'] = more := List.cons.inj hsense
  have hnonce : '<' ∉ k.nonce := k.notMem_nonce (by decide)
  have htext : (whole .codeTerminator []).text k = _ := Sentinel.text_eq k [] .codeTerminator
  constructor
  · rw [htext]
    simp [Sentinel.lead, Sentinel.trail, Sentinel.isQuote, Sentinel.label, hnonce]
  · rw [htext]
    simp [Sentinel.lead]

/-- **No escape holds what a later step of encoding looks for.** -/
theorem pairwise_sparedBy (k : Codec) (style : Style) :
    style.escapes.Pairwise fun a b => SparedBy k b (whole a []) := by
  have hquote : ∀ {a b : Sentinel}, a.isQuote = true → b.sense ⊆ sought →
      SparedBy k b (whole a []) := sparedBy_of_isQuote k
  cases style with
  | markup =>
    simp only [Style.escapes, List.pairwise_cons, List.forall_mem_cons, List.not_mem_nil,
      false_imp_iff, implies_true, and_true, List.Pairwise.nil]
    exact ⟨⟨hquote rfl (by decide), hquote rfl (by decide)⟩, hquote rfl (by decide)⟩
  | code =>
    simp only [Style.escapes, List.pairwise_cons, List.forall_mem_cons, List.not_mem_nil,
      false_imp_iff, implies_true, and_true, List.Pairwise.nil]
    exact ⟨⟨hquote rfl (by decide), hquote rfl (by decide), hquote rfl (by decide)⟩,
      ⟨hquote rfl (by decide), hquote rfl (by decide)⟩, sparedBy_codeTerminator k⟩

end Symbol

namespace Codec

open TemplateTidy.Symbol

/-- **Encoded text stands for what it was made from.** It consists of plain
characters and whole escapes. -/
theorem encode_eq_flat (k : Codec) (style : Style) (s : Text) :
    ∃ syms, k.encode style s = flat k syms ∧ syms.flatMap sense = s ∧
      ∀ σ ∈ syms, σ.Fresh := by
  have hplain : ∀ σ ∈ s.map plain,
      σ.Fresh ∧ (σ.isPlain = false → ∀ b ∈ style.escapes, SparedBy k b σ) := by
    intro σ hσ
    obtain ⟨c, -, rfl⟩ := List.mem_map.mp hσ
    exact ⟨trivial, nofun⟩
  obtain ⟨syms, hflat, hsense, hfresh⟩ := foldl_replaceAll_flat k
    (fun a ha => sense_ne_nil_of_mem_escapes ha) (pairwise_sparedBy k style) hplain
  rw [flat_map_plain, ← encode_eq_foldl] at hflat
  exact ⟨syms, hflat, hsense.trans (sense_map_plain s), hfresh⟩

end Codec

end TemplateTidy
