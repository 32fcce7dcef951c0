import TemplateTidy.Proofs.Marker.Escape
import TemplateTidy.Proofs.Marker.Nonce
import TemplateTidy.Proofs.Segment.Outline

/-!
# Taking the disguise off

Whatever has become of the gaps between the hidden segments, decoding brings the
segments back, as long as the new gaps hold no fragment of the sentinels.

A fragment consists of the nonce and a percent sign. A segment begins with `<`
and ends with `>`, so no fragment reaches from a gap into a segment or the other
way round: what the whole text stands for holds a fragment only if a gap or a
segment does (`collides_weave`). The segments hold none, because the nonce was
chosen for the template they come from.

Main result: `decode_restores_segments`.
-/

namespace TemplateTidy

/-! ## Hidden segments as symbols -/

namespace Segment

open TemplateTidy.Symbol

/-- The tokens of a segment, each of them encoded. -/
theorem encode_inner_eq_flat (k : Codec) (style : Style) (inner : List Text) :
    ∃ syms, inner.flatMap (k.encode style) = flat k syms ∧ syms.flatMap sense = inner.flatten ∧
      ∀ σ ∈ syms, σ.Fresh := by
  induction inner with
  | nil => exact ⟨[], rfl, rfl, fun σ hσ => nomatch hσ⟩
  | cons t inner ih =>
    obtain ⟨syms₁, hflat₁, hsense₁, hfresh₁⟩ := k.encode_eq_flat style t
    obtain ⟨syms₂, hflat₂, hsense₂, hfresh₂⟩ := ih
    refine ⟨syms₁ ++ syms₂, ?_, ?_, ?_⟩
    · rw [List.flatMap_cons, hflat₁, hflat₂, flat_append]
    · rw [List.flatMap_append, hsense₁, hsense₂, List.flatten_cons]
    · exact List.forall_mem_append.mpr ⟨hfresh₁, hfresh₂⟩

/-- Plain characters are fresh. -/
theorem fresh_map_plain (s : Text) : ∀ σ ∈ s.map plain, σ.Fresh := by
  intro σ hσ
  obtain ⟨c, -, rfl⟩ := List.mem_map.mp hσ
  trivial

/-- An escaped segment stands for the segment. -/
theorem escaped_eq_flat (k : Codec) (ranges : List ContextRange) (g : Segment) :
    ∃ syms, g.escaped k ranges = flat k syms ∧ syms.flatMap sense = g.source ∧
      ∀ σ ∈ syms, σ.Fresh := by
  obtain ⟨syms, hflat, hsense, hfresh⟩ := encode_inner_eq_flat k (g.style ranges) g.inner
  refine ⟨g.opener.map plain ++ syms ++ Disguise.suppliedClose.map plain, ?_, ?_, ?_⟩
  · rw [flat_append, flat_append, flat_map_plain, flat_map_plain, ← hflat, escaped]
  · rw [List.flatMap_append, List.flatMap_append, sense_map_plain, sense_map_plain, hsense, source]
  · exact List.forall_mem_append.mpr
      ⟨List.forall_mem_append.mpr ⟨fresh_map_plain _, hfresh⟩, fresh_map_plain _⟩

/-- The sentinel that opens a comment, with the blank it holds. -/
def opening : Style → Symbol
  | .markup => whole .markupStart [' ']
  | .code => whole .codeStart []

/-- The sentinel that closes a comment. -/
def closing : Style → Symbol
  | .markup => whole .markupEnd []
  | .code => whole .codeEnd []

theorem text_opening (k : Codec) (style : Style) : (opening style).text k = k.wrapStart style := by
  cases style <;> rfl

theorem text_closing (k : Codec) (style : Style) : (closing style).text k = k.wrapEnd style := by
  cases style <;> rfl

theorem opening_fresh (style : Style) : (opening style).Fresh ∧ (opening style).sense = [] := by
  cases style <;> exact ⟨rfl, rfl⟩

theorem closing_fresh (style : Style) : (closing style).Fresh ∧ (closing style).sense = [] := by
  cases style <;> exact ⟨rfl, rfl⟩

/-- A hidden segment stands for the segment. -/
theorem hidden_eq_flat (k : Codec) (ranges : List ContextRange) (g : Segment) :
    ∃ syms, g.hidden k ranges = flat k syms ∧ syms.flatMap sense = g.source ∧
      ∀ σ ∈ syms, σ.Fresh := by
  obtain ⟨syms, hflat, hsense, hfresh⟩ := escaped_eq_flat k ranges g
  refine ⟨opening (g.style ranges) :: syms ++ [closing (g.style ranges)], ?_, ?_, ?_⟩
  · rw [hidden, hflat, flat_append, flat_cons, flat_cons, text_opening, text_closing, flat_nil,
      List.append_nil]
  · rw [List.flatMap_append, List.flatMap_cons, (opening_fresh _).2, List.flatMap_singleton,
      (closing_fresh _).2, hsense, List.nil_append, List.append_nil]
  · rw [List.cons_append]
    refine List.forall_mem_cons.mpr ⟨(opening_fresh _).1, List.forall_mem_append.mpr ⟨hfresh, ?_⟩⟩
    exact List.forall_mem_singleton.mpr (closing_fresh _).1

end Segment

namespace Outline

open TemplateTidy.Symbol

/-- A text with hidden segments stands for the text with the segments. -/
theorem weave_eq_flat (k : Codec) (ranges : List ContextRange) (o : Outline) :
    ∃ syms, o.weave (Segment.hidden k ranges) = flat k syms ∧
      syms.flatMap sense = o.weave Segment.source ∧ ∀ σ ∈ syms, σ.Fresh := by
  obtain ⟨first, rest⟩ := o
  induction rest generalizing first with
  | nil =>
    refine ⟨first.map plain, ?_, ?_, Segment.fresh_map_plain first⟩
    · rw [flat_map_plain, weave, List.flatMap_nil, List.append_nil]
    · rw [sense_map_plain, weave, List.flatMap_nil, List.append_nil]
  | cons piece rest ih =>
    obtain ⟨g, gap⟩ := piece
    obtain ⟨syms₁, hflat₁, hsense₁, hfresh₁⟩ := g.hidden_eq_flat k ranges
    obtain ⟨syms₂, hflat₂, hsense₂, hfresh₂⟩ := ih gap
    -- the gap after the segment is the first gap of what follows
    have hstep : ∀ write, weave write ⟨first, (g, gap) :: rest⟩ =
        first ++ (write g ++ weave write ⟨gap, rest⟩) := by
      intro write
      simp [weave]
    refine ⟨first.map plain ++ (syms₁ ++ syms₂), ?_, ?_, ?_⟩
    · rw [hstep, hflat₁, hflat₂, flat_append, flat_append, flat_map_plain]
    · rw [hstep, List.flatMap_append, List.flatMap_append, sense_map_plain, hsense₁, hsense₂]
    · exact List.forall_mem_append.mpr
        ⟨Segment.fresh_map_plain _, List.forall_mem_append.mpr ⟨hfresh₁, hfresh₂⟩⟩

end Outline

/-! ## Fragments do not reach across the ends of segments -/

/-- A text without angle brackets lies in one gap or one segment. -/
theorem Outline.infix_weave {f : Text} (hlt : '<' ∉ f) (hgt : '>' ∉ f) {o : Outline}
    (hsource : ∀ g ∈ o.segments, ∃ mid, g.source = '<' :: mid ++ ['>'])
    (h : f <:+: o.weave Segment.source) :
    (∃ gap ∈ o.gaps, f <:+: gap) ∨ ∃ g ∈ o.segments, f <:+: g.source := by
  obtain ⟨first, rest⟩ := o
  induction rest generalizing first with
  | nil =>
    refine .inl ⟨first, List.mem_cons_self .., ?_⟩
    simpa [weave] using h
  | cons piece rest ih =>
    obtain ⟨g, gap⟩ := piece
    obtain ⟨mid, hmid⟩ := hsource g (List.mem_cons_self ..)
    have hcut : weave Segment.source ⟨first, (g, gap) :: rest⟩ =
        first ++ '<' :: (mid ++ '>' :: weave Segment.source ⟨gap, rest⟩) := by
      simp [weave, hmid]
    rw [hcut] at h
    -- a fragment lies before the `<`, between the brackets or behind the `>`
    rcases infix_append_cons_of_notMem hlt h with h | h
    · exact .inl ⟨first, List.mem_cons_self .., h⟩
    rcases infix_append_cons_of_notMem hgt h with h | h
    · refine .inr ⟨g, List.mem_cons_self .., h.trans ?_⟩
      exact ⟨['<'], ['>'], by rw [hmid]; rfl⟩
    · -- the gap after the segment is the first one of what follows
      rcases ih gap (fun g' hg' => hsource g' (List.mem_cons_of_mem _ hg')) h with
        ⟨gap', hgap', hf⟩ | ⟨g', hg', hf⟩
      · exact .inl ⟨gap', List.mem_cons_of_mem _ hgap', hf⟩
      · exact .inr ⟨g', List.mem_cons_of_mem _ hg', hf⟩

namespace Codec

/-- The fragments of sentinels are letters, digits and percent signs. -/
theorem notMem_fragments (k : Codec) {c : Char} (hc : c.isAlphanum = false) (hp : c ≠ '%') :
    c ∉ '%' :: k.nonce ∧ c ∉ k.nonce ++ ['%'] := by
  have hnonce := k.notMem_nonce hc
  simp [hnonce, hp]

/-- What stands for a template with other gaps holds no fragment if the gaps and
the segments hold none. -/
theorem collides_weave {k : Codec} {o : Outline}
    (hsource : ∀ g ∈ o.segments, ∃ mid, g.source = '<' :: mid ++ ['>'])
    (hsegments : ∀ g ∈ o.segments, k.collides g.source = false)
    (hgaps : ∀ gap ∈ o.gaps, k.collides gap = false) :
    k.collides (o.weave Segment.source) = false := by
  have hlt := k.notMem_fragments (c := '<') (by decide) (by decide)
  have hgt := k.notMem_fragments (c := '>') (by decide) (by decide)
  rw [collides_eq_false_iff]
  constructor
  · intro h
    rcases Outline.infix_weave hlt.1 hgt.1 hsource h with ⟨gap, hmem, hf⟩ | ⟨g, hmem, hf⟩
    · exact ((collides_eq_false_iff k gap).mp (hgaps gap hmem)).1 hf
    · exact ((collides_eq_false_iff k g.source).mp (hsegments g hmem)).1 hf
  · intro h
    rcases Outline.infix_weave hlt.2 hgt.2 hsource h with ⟨gap, hmem, hf⟩ | ⟨g, hmem, hf⟩
    · exact ((collides_eq_false_iff k gap).mp (hgaps gap hmem)).2 hf
    · exact ((collides_eq_false_iff k g.source).mp (hsegments g hmem)).2 hf

/-- A closing tag at the end brings no fragment in. -/
theorem collides_append_close {k : Codec} {s : Text} (h : k.collides s = false) (inside : Bool) :
    k.collides (s ++ if inside then Disguise.suppliedClose else []) = false := by
  cases inside with
  | false => simpa using h
  | true =>
    have hmark := k.notMem_fragments (c := '?') (by decide) (by decide)
    have hgt := k.notMem_fragments (c := '>') (by decide) (by decide)
    rw [collides_eq_false_iff] at h ⊢
    -- a fragment is not empty, and `>` is none
    have hnot : ∀ f : Text, f ≠ [] → '?' ∉ f → '>' ∉ f → ¬ f <:+: s →
        ¬ f <:+: s ++ Disguise.suppliedClose := by
      intro f hf hq hg hs hinfix
      rcases infix_append_cons_of_notMem hq hinfix with hinfix | hinfix
      · exact hs hinfix
      rcases infix_append_cons_of_notMem (a := []) hg hinfix with hinfix | hinfix <;>
        exact hf (List.infix_nil.mp hinfix)
    exact ⟨hnot _ (by simp) hmark.1 hgt.1 h.1, hnot _ (by simp) hmark.2 hgt.2 h.2⟩

end Codec

/-! ## The result -/

/-- What the disguise of a template stands for holds no fragment of its sentinels. -/
theorem collides_outline {k : Codec} {s : Text} (hs : k.collides s = false) (shortTags : Bool) :
    k.collides ((Outline.ofTokens (tokenize shortTags s)).weave Segment.source) = false := by
  obtain ⟨inside, hrun⟩ := tokenize_run shortTags s
  rw [weave_source hrun]
  exact Codec.collides_append_close hs inside

/-- The segments of a template hold no fragment of the sentinels chosen for it. -/
theorem collides_source {k : Codec} {shortTags : Bool} {s : Text} (hs : k.collides s = false)
    {g : Segment} (hg : g ∈ (Outline.ofTokens (tokenize shortTags s)).segments) :
    k.collides g.source = false := by
  refine Codec.collides_eq_false_of_infix ?_ (collides_outline hs shortTags)
  obtain ⟨⟨g', gap⟩, hmem, rfl⟩ := List.mem_map.mp hg
  exact (List.prefix_append _ gap).isInfix.trans (Outline.infix_weave_of_mem Segment.source hmem)

/-- Decoding brings the segments of a template back between any gaps that hold no
fragment. -/
theorem decode_weave {k : Codec} (hk : k.Branded) {shortTags : Bool} {s : Text}
    (hs : k.collides s = false) (ranges : List ContextRange) {o : Outline}
    (ho : o.segments = (Outline.ofTokens (tokenize shortTags s)).segments)
    (hgaps : ∀ gap ∈ o.gaps, k.collides gap = false) :
    k.decode (o.weave (Segment.hidden k ranges)) = o.weave Segment.source := by
  obtain ⟨syms, hflat, hsense, hfresh⟩ := o.weave_eq_flat k ranges
  have hclean : k.collides (o.weave Segment.source) = false := by
    refine Codec.collides_weave ?_ ?_ hgaps
    · rw [ho]
      exact fun g hg => source_of_mem_segments hg
    · rw [ho]
      exact fun g hg => collides_source hs hg
  rw [hflat]
  exact Codec.decode_flat_fresh hk hfresh hsense hclean

/-- The gaps of a template hold no fragment of the sentinels chosen for it. -/
theorem collides_gap {k : Codec} {shortTags : Bool} {s : Text} (hs : k.collides s = false)
    {gap : Text} (hgap : gap ∈ (Outline.ofTokens (tokenize shortTags s)).gaps) :
    k.collides gap = false := by
  refine Codec.collides_eq_false_of_infix ?_ (collides_outline hs shortTags)
  rcases List.mem_cons.mp hgap with rfl | hgap
  · exact (List.prefix_append ..).isInfix
  · obtain ⟨⟨g, gap'⟩, hmem, rfl⟩ := List.mem_map.mp hgap
    exact (List.suffix_append g.source _).isInfix.trans
      (Outline.infix_weave_of_mem Segment.source hmem)

open Token (Kind)

/-- **Decoding restores the code, whatever becomes of the gaps.** The disguise of a
template alternates between its gaps and its segments, one for each opening tag,
every segment hidden by itself. With the hidden segments between any other gaps
that hold no fragment of the sentinels, decoding yields the segments as they
were, between those gaps.

So a formatter that changes nothing yields the template, followed by `?>` exactly
if the tokens end inside a segment. -/
theorem decode_restores_segments (draws : Draws) (draw : Nat) (shortTags : Bool) (s : Text) :
    let k := (Codec.forText draws draw s).1
    let tokens := tokenize shortTags s
    let o := Outline.ofTokens tokens
    ∃ inside, Kind.run false (tokens.map (·.kind)) = some inside ∧
      o.weave Segment.source = s ++ (if inside then "?>".toList else []) ∧
      o.segments.map (·.opener) = (tokens.filter (·.kind.isOpen)).map (·.text) ∧
      (∀ ranges, disguise k ranges tokens = o.weave (Segment.hidden k ranges) ∧
        ∀ o' : Outline, o'.segments = o.segments →
          (∀ gap ∈ o'.gaps, k.collides gap = false) →
          k.decode (o'.weave (Segment.hidden k ranges)) = o'.weave Segment.source) ∧
      (isWholeCodeBlock s = false →
        (ContextRange.find ContextRange.codeElements tokens).isOk = true →
        ∀ options, (beautifyWith (fun _ t => .ok t) draws draw options shortTags s).result =
          .ok (s ++ (if inside then "?>".toList else []))) := by
  intro k tokens o
  have hk : k.Branded := Codec.branded_forText draws draw s
  have hs : k.collides s = false := Codec.collides_forText draws draw s
  obtain ⟨inside, hrun⟩ := tokenize_run shortTags s
  have hsource : o.weave Segment.source = s ++ (if inside then "?>".toList else []) :=
    weave_source hrun
  have hhidden : ∀ ranges, disguise k ranges tokens = o.weave (Segment.hidden k ranges) :=
    fun ranges => disguise_eq_weave k ranges shortTags s
  refine ⟨inside, hrun, hsource, Outline.openers_of_read (g := none) 0 hrun, ?_, ?_⟩
  · intro ranges
    exact ⟨hhidden ranges, fun o' ho' hgaps => decode_weave hk hs ranges ho' hgaps⟩
  · intro hfull hfound options
    -- the gaps of the template are gaps like any others
    have hown : ∀ ranges, k.decode (disguise k ranges tokens) = o.weave Segment.source := by
      intro ranges
      rw [hhidden]
      exact decode_weave hk hs ranges rfl fun gap hgap => collides_gap hs hgap
    rw [← hsource, beautifyWith, hfull, if_neg Bool.false_ne_true]
    cases hfind : ContextRange.find ContextRange.codeElements tokens with
    | error fault =>
      rw [hfind] at hfound
      exact Bool.noConfusion hfound
    | ok ranges =>
      rw [← hown ranges]
      simp only [prepare, tokens] at hfind ⊢
      rw [hfind]
      rfl

/-- A template with a comment's terminator in its code, and the same code between
other gaps. -/
theorem decode_restores_segments_moved :
    let s := "<p title=<?= '-->' ?>\n> 100% <?php echo \"x\"".toList
    let o := Outline.ofTokens (tokenize false s)
    let k := (Codec.forText Draws.counter 0 s).1
    let moved : Outline := ⟨"<p\n  title=".toList,
      o.segments.zip [">100%\n".toList, "\n<p>".toList]⟩
    k.decode (moved.weave (Segment.hidden k [])) =
        "<p\n  title=<?= '-->' ?>>100%\n<?php echo \"x\"?>\n<p>".toList ∧
      (beautifyWith (fun _ t => .ok t) Draws.counter 0 {} false s).result =
        .ok (s ++ "?>".toList) := by
  intro s o k moved
  have htokens : tokenize false s =
      [⟨.inlineHtml, "<p title=".toList, 0⟩, ⟨.openTagWithEcho, "<?=".toList, 9⟩,
       ⟨.code, " '-->' ".toList, 12⟩, ⟨.closeTag, "?>\n".toList, 19⟩,
       ⟨.inlineHtml, "> 100% ".toList, 22⟩, ⟨.openTag, "<?php".toList, 29⟩,
       ⟨.code, " echo \"x\"".toList, 34⟩] := by decide +kernel
  -- two segments, the second one left open
  have ho : o = ⟨"<p title=".toList,
      [(⟨9, "<?=".toList, [" '-->' ".toList]⟩, "\n> 100% ".toList),
       (⟨29, "<?php".toList, [" echo \"x\"".toList]⟩, [])]⟩ := by
    simp only [o, htokens]
    decide +kernel
  obtain ⟨inside, hrun, -, -, hrestore, hidentity⟩ :=
    decode_restores_segments Draws.counter 0 false s
  have hinside : inside = true := by
    rw [htokens] at hrun
    exact (Option.some.inj hrun).symm
  constructor
  · -- a formatter that moves white space about
    have hmoved : moved = ⟨"<p\n  title=".toList,
        [(⟨9, "<?=".toList, [" '-->' ".toList]⟩, ">100%\n".toList),
         (⟨29, "<?php".toList, [" echo \"x\"".toList]⟩, "\n<p>".toList)]⟩ := by
      simp only [moved, ho]
      decide +kernel
    have hgaps : ∀ gap ∈ moved.gaps, k.collides gap = false := by
      rw [hmoved]
      decide +kernel
    have hsegments : moved.segments = o.segments := by
      rw [hmoved, ho]
      rfl
    rw [(hrestore []).2 moved hsegments hgaps, hmoved]
    decide +kernel
  · -- one that leaves everything
    have hresult := hidentity (by decide +kernel) (by rw [htokens]; decide +kernel) {}
    rwa [hinside] at hresult

end TemplateTidy
