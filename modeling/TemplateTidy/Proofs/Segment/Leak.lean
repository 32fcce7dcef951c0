import TemplateTidy.Proofs.Marker.Leak
import TemplateTidy.Proofs.Segment.Pipeline

/-!
# Where sentinels leak

A template that is laid out in full holds no fragment of the sentinels afterwards,
unless a start tag is printed with white space inside a sentinel. That happens
where a sentinel ends at a split of the tag: its slash is taken for the one that
ends the tag's name or closes the tag, or its bracket for that of a tag left
unfinished, and gets a line of its own.

Main result: `collides_beautify_eq_tears`.
-/

namespace TemplateTidy

open Chunk

/-! ## Tags that tear sentinels -/

/-- White space is put in before the last character of a sentinel in the tag. -/
def StartTag.tears (o : MarkupOptions) (k : Codec) (tag : StartTag) : Bool :=
  (tag.splits o).any fun q => q.isPrefixOf tag.raw && k.sentinels.any (·.isSuffixOf q)

/-- A start tag of the disguised template tears a sentinel. -/
def Prepared.tears (o : MarkupOptions) (p : Prepared) : Bool :=
  (Item.scan o p.disguised).any fun
    | .startTag tag => tag.tears o p.codec
    | _ => false

/-- A tag tears a sentinel if one ends at a split of it. -/
theorem StartTag.tears_iff {o : MarkupOptions} {k : Codec} {tag : StartTag} :
    tag.tears o k = true ↔
      ∃ q ∈ tag.splits o, q <+: tag.raw ∧ ∃ a : Sentinel, a.text k [' '] <:+ q := by
  have hall : k.sentinels = Sentinel.all.map (·.text k [' ']) := rfl
  simp only [tears, List.any_eq_true, Bool.and_eq_true, List.isPrefixOf_iff_prefix, hall,
    List.mem_map, List.isSuffixOf_iff_suffix]
  refine exists_congr fun q => and_congr_right fun _ => and_congr_right fun _ => ?_
  constructor
  · rintro ⟨t, ⟨a, -, rfl⟩, hsuffix⟩
    exact ⟨a, hsuffix⟩
  · rintro ⟨a, hsuffix⟩
    exact ⟨_, ⟨a, a.mem_all, rfl⟩, hsuffix⟩

/-- A template is torn if one of its start tags tears a sentinel. -/
theorem Prepared.tears_iff {o : MarkupOptions} {p : Prepared} :
    p.tears o = true ↔ ∃ tag, Item.startTag tag ∈ Item.scan o p.disguised ∧
      tag.tears o p.codec = true := by
  rw [tears, List.any_eq_true]
  constructor
  · rintro ⟨i, hi, htears⟩
    cases i with
    | startTag tag => exact ⟨tag, hi, htears⟩
    | _ => exact Bool.noConfusion htears
  · rintro ⟨tag, hi, htears⟩
    exact ⟨.startTag tag, hi, htears⟩

/-! ## Sentinels at cuts -/

namespace Item

open TemplateTidy.Symbol

variable {o : MarkupOptions} {items : List Item}

/-- The cuts of scanned items lie in tags. -/
theorem cutsTags_cutsOf {last : Option Char} (h : Follows last items) :
    CutsTags (CutsOf o items) := by
  rintro t ⟨before, tag, after, rfl, q, hq, rfl⟩
  obtain ⟨c, r, hraw, -⟩ := h.at.1
  obtain ⟨hhead, hlast⟩ := StartTag.getLast?_of_mem_splits hraw hq
  have hne : q ≠ [] := by
    rintro rfl
    cases hhead
  rwa [List.getLast?_append_of_ne_nil _ hne]

/-- A sentinel begins with its only opening bracket, if it has one. -/
theorem lt_notMem_tail {k : Codec} (hk : k.Branded) {a : Sentinel} (ha : a ≠ .markupStart)
    {gap : Text} {first : Char} {more : Text} (htext : a.text k gap = first :: more) :
    '<' ∉ more := by
  obtain ⟨first', mid, last, hshape, hmid, -, hlast⟩ := Sentinel.exists_shape hk ha gap
  obtain ⟨-, rfl⟩ := List.cons.inj (htext.symm.trans hshape)
  rw [List.mem_append, List.mem_singleton]
  rintro (hmem | rfl)
  · exact absurd (List.all_eq_true.mp hmid '<' hmem) (by decide)
  · exact hlast.2.1 rfl

/-- A sentinel that ends at a split of a tag lies in the tag. -/
theorem suffix_of_split {k : Codec} (hk : k.Branded) {a : Sentinel} (ha : a ≠ .markupStart)
    {gap before q : Text} (hq : q.head? = some '<') (h : a.text k gap <:+ before ++ q) :
    a.text k gap <:+ q := by
  rcases List.suffix_or_suffix_of_suffix h (List.suffix_append before q) with hsuffix | hsuffix
  · exact hsuffix
  · obtain ⟨q', rfl⟩ := List.head?_eq_some_iff.mp hq
    obtain ⟨first, more, htext⟩ :=
      List.exists_cons_of_ne_nil (text_ne_nil k (whole a gap))
    have htext' : a.text k gap = first :: more := htext
    rw [htext'] at hsuffix ⊢
    rcases List.suffix_cons_iff.mp hsuffix with heq | hsuffix
    · rw [heq]
    · exact absurd (hsuffix.subset (List.mem_cons_self ..)) (lt_notMem_tail hk ha htext')

/-- The split of a tag where a sentinel of the markup ends is a front part of the
tag. -/
theorem prefix_raw_of_split {last : Option Char} {before after : List Item} {tag : StartTag}
    (h : Follows last (before ++ startTag tag :: after)) {q : Text} (hq : q ∈ tag.splits o)
    (hpre : rawOf before ++ q <+: rawOf (before ++ startTag tag :: after)) : q <+: tag.raw := by
  obtain ⟨⟨c, r, hraw, -⟩, hclosed⟩ := h.at
  have hrest : q <+: tag.raw ++ rawOf after := by
    rw [rawOf_append] at hpre
    exact (List.prefix_append_right_inj _).mp hpre
  rcases hclosed rfl with hlast | rfl
  · -- nothing is supplied to a closed tag
    have hsupplied : tag.supplied o = [] := supplied_eq_nil o (i := startTag tag) fun _ => hlast
    have hown := StartTag.prefix_of_mem_splits hraw hq
    rwa [hsupplied, List.append_nil] at hown
  · simpa [rawOf] using hrest

/-- A whole symbol stands before characters that are plain. -/
theorem eq_append_of_whole {front back syms : List Symbol} {a : Sentinel} {gap extra : Text}
    (h : syms ++ extra.map plain = front ++ whole a gap :: back) :
    ∃ back', syms = front ++ whole a gap :: back' := by
  have hplain : ∀ l : List Symbol, extra.map plain ≠ l ++ whole a gap :: back := by
    intro l hl
    have hmem : whole a gap ∈ extra.map plain := by
      rw [hl]
      simp
    obtain ⟨c, -, hc⟩ := List.mem_map.mp hmem
    cases hc
  rcases List.append_eq_append_iff.mp h with ⟨l, -, hl⟩ | ⟨l, hl, hback⟩
  · exact absurd hl (hplain l)
  · cases l with
    | nil => exact absurd hback.symm (hplain [])
    | cons σ l =>
      obtain ⟨rfl, -⟩ := List.cons.inj hback
      exact ⟨l, hl⟩

/-- **A sentinel ends at a cut exactly if a start tag tears one.** -/
theorem exists_cut_iff {k : Codec} (hk : k.Branded) {last : Option Char} (h : Follows last items)
    {syms : List Symbol} (hfresh : ∀ σ ∈ syms, σ.Fresh) (hflat : flat k syms = rawOf items)
    (hclean : k.collides (syms.flatMap sense) = false) (extra : Text) :
    (∃ t, EndsAt k (syms ++ extra.map plain) t ∧ CutsOf o items t) ↔
      ∃ tag, startTag tag ∈ items ∧ tag.tears o k = true := by
  constructor
  · -- a sentinel that ends at a cut lies in the tag that is cut
    rintro ⟨t, hends, hcut⟩
    have hfresh' : ∀ σ ∈ syms ++ extra.map plain, σ.Fresh :=
      List.forall_mem_append.mpr ⟨hfresh, Segment.fresh_map_plain extra⟩
    obtain ⟨front, a, gap, back, -, -, -, hsyms, ha, ht, -⟩ :=
      exists_of_endsAt hk hfresh' hends (cutsTags_cutsOf h t hcut)
    obtain ⟨back', rfl⟩ := eq_append_of_whole hsyms
    obtain ⟨before, tag, after, rfl, q, hq, rfl⟩ := hcut
    obtain ⟨⟨c, r, hraw, -⟩, -⟩ := h.at
    refine ⟨tag, by simp, StartTag.tears_iff.mpr ⟨q, hq, ?_, a, ?_⟩⟩
    · refine prefix_raw_of_split h hq ⟨flat k back', ?_⟩
      rw [ht, ← hflat]
      simp [Symbol.text]
    · rw [Sentinel.text_congr k ha [' '] gap]
      exact suffix_of_split hk ha (StartTag.getLast?_of_mem_splits hraw hq).1 ⟨_, ht.symm⟩
  · rintro ⟨tag, hmem, htears⟩
    obtain ⟨before, after, rfl⟩ := List.append_of_mem hmem
    obtain ⟨q, hq, ⟨v, hv⟩, a, u, hu⟩ := StartTag.tears_iff.mp htears
    obtain ⟨⟨c, r, hraw, -⟩, -⟩ := h.at
    have ha : a ≠ .markupStart := by
      rintro rfl
      have hend := (StartTag.getLast?_of_mem_splits hraw hq).2
      rw [← hu, List.getLast?_append, Sentinel.getLast?_markupStart, Option.some_or] at hend
      rcases hend with h | h <;> exact absurd h (by decide)
    -- the sentinel in the tag is one of the symbols
    have hstand : flat k syms = (rawOf before ++ u) ++ a.text k [' '] ++ (v ++ rawOf after) := by
      rw [hflat, rawOf_append]
      simp [rawOf, raw, ← hv, ← hu]
    obtain ⟨front, gap, back, rfl, hfront⟩ := exists_whole_of_flat hk
      (fun σ hσ => (hfresh σ hσ).valid) hclean (by decide) hstand
    refine ⟨rawOf before ++ q, ⟨front, whole a gap, back ++ extra.map plain, by simp, rfl, ?_⟩,
      before, tag, after, rfl, q, hq, rfl⟩
    rw [flat_append, hfront, flat_cons, flat_nil, List.append_nil, Symbol.text,
      Sentinel.text_congr k ha gap [' '], List.append_assoc, hu]

/-- Blank markup has no start tags. -/
theorem startTag_notMem_scan {s : Text} (hs : s.Blank) (tag : StartTag) :
    startTag tag ∉ scan o s := by
  intro hmem
  obtain ⟨before, after, hscan⟩ := List.append_of_mem hmem
  have hfollows : Follows none (scan o s) := follows_scan o (.inl rfl)
  have hraw := rawOf_scan o s
  rw [hscan] at hfollows hraw
  obtain ⟨⟨c, r, htag, -⟩, -⟩ := hfollows.at
  have hlt : '<' ∈ s := by
    rw [← hraw]
    simp [rawOf, raw, htag]
  exact absurd (hs.of_mem hlt) (by decide)

end Item

/-! ## The result -/

/-- A formatted disguise, decoded, holds a fragment exactly if a start tag tears a
sentinel. -/
theorem collides_decode_formatMarkup {k : Codec} (hk : k.Branded) {o : MarkupOptions}
    (ho : o.IndentsBlank) {syms : List Symbol} (hfresh : ∀ σ ∈ syms, σ.Fresh)
    (hclean : k.collides (syms.flatMap Symbol.sense) = false) {formatted : Text}
    (hformat : formatMarkup o (Symbol.flat k syms) = .ok formatted) :
    k.collides (k.decode formatted) = true ↔
      ∃ tag, Item.startTag tag ∈ Item.scan o (Symbol.flat k syms) ∧ tag.tears o k = true := by
  rcases formatMarkup_spec ho hformat with ⟨hblank, rfl⟩ | ⟨cells, rest, feed, hfeed, rfl, htypeset⟩
  · -- nothing is printed, and there is nothing to tear
    have hnone : k.collides (k.decode []) = false := by
      rw [show k.decode [] = [] from rfl, Codec.collides_eq_false_iff]
      simp
    rw [hnone]
    refine iff_of_false Bool.false_ne_true ?_
    rintro ⟨tag, hmem, -⟩
    exact Item.startTag_notMem_scan hblank tag hmem
  · have hfollows : Item.Follows none (Item.scan o (Symbol.flat k syms)) :=
      Item.follows_scan o (.inl rfl)
    have hraw : Item.rawOf (Item.scan o (Symbol.flat k syms)) = Symbol.flat k syms :=
      Item.rawOf_scan o _
    obtain ⟨extra, htext, hextra⟩ := Item.textOf_chunksOf o hfollows
    -- a bracket that is supplied is one more plain symbol
    have hflat : textOf (Item.chunksOf o (Item.scan o (Symbol.flat k syms))) =
        Symbol.flat k (syms ++ extra.map Symbol.plain) := by
      rw [htext, hraw, Symbol.flat_append, Symbol.flat_map_plain]
    have hfresh' : ∀ σ ∈ syms ++ extra.map Symbol.plain, σ.Fresh :=
      List.forall_mem_append.mpr ⟨hfresh, Segment.fresh_map_plain extra⟩
    have hclean' : k.collides ((syms ++ extra.map Symbol.plain).flatMap Symbol.sense) = false := by
      rw [List.flatMap_append, Symbol.sense_map_plain]
      refine Codec.collides_append_separators hclean ?_
      rcases hextra with rfl | rfl
      · exact List.forall_mem_nil _
      · exact List.forall_mem_singleton.mpr (by decide)
    rw [Codec.collides_decode_iff hk (Item.cutsTags_cutsOf hfollows) htypeset hfresh' hflat hclean'
      hfeed]
    exact Item.exists_cut_iff hk hfollows hfresh hraw.symm hclean extra

/-- **Where sentinels leak.** Laid out in full under the options of any record, a
template holds a fragment of its sentinels exactly if a start tag of the disguised
template is printed with white space before the last character of a sentinel. -/
theorem collides_beautify_eq_tears (draws : Draws) (draw : Nat) (r : Record) (shortTags : Bool)
    (s out : Text) (hfull : isWholeCodeBlock s = false)
    (hout : (beautify draws draw (.ofRecord r) shortTags s).result = .ok out) :
    ∃ p, prepare (Codec.forText draws draw s).1 shortTags s = .ok p ∧
      (Codec.forText draws draw s).1.collides out = p.tears (.ofRecord r) := by
  have hk := Codec.branded_forText draws draw s
  have hs := Codec.collides_forText draws draw s
  obtain ⟨p, formatted, hprepare, hformat, rfl⟩ := exists_of_beautify hfull hout
  refine ⟨p, hprepare, ?_⟩
  obtain ⟨hcodec, -, hdisguised⟩ := prepare_spec hprepare
  obtain ⟨syms, hflat, hsense, hfresh⟩ :=
    (Outline.ofTokens (tokenize shortTags s)).weave_eq_flat (Codec.forText draws draw s).1 p.ranges
  have hclean := collides_outline hs shortTags
  rw [← hsense] at hclean
  have hpage : p.disguised = Symbol.flat (Codec.forText draws draw s).1 syms :=
    hdisguised.trans hflat
  rw [hpage] at hformat
  rw [Bool.eq_iff_iff, Prepared.tears_iff, hcodec, hpage]
  exact collides_decode_formatMarkup hk (MarkupOptions.indentsBlank_ofRecord r) hfresh hclean
    hformat

/-- A script with code in its start tag: the code is hidden in a comment that ends
with a slash, and the slash is taken for one that closes the tag. -/
theorem collides_beautify_eq_tears_script :
    let s := "<script <?= $attrs ?>>var a = 1;</script>".toList
    let out := "<script <?= $attrs ?>%pcs-comment-end#* />\nvar a = 1;\n</script>".toList
    (beautify Draws.counter 0 (.ofRecord []) false s).result = .ok out ∧
      Codec.usual.collides out = true ∧
      ∃ p, prepare Codec.usual false s = .ok p ∧ p.tears (.ofRecord []) = true := by
  intro s out
  have hout : (beautify Draws.counter 0 (.ofRecord []) false s).result = .ok out := by
    decide +kernel
  have hcodec : (Codec.forText Draws.counter 0 s).1 = Codec.usual := rfl
  have hleak : Codec.usual.collides out = true := by decide +kernel
  obtain ⟨p, hp, htears⟩ :=
    collides_beautify_eq_tears Draws.counter 0 [] false s out (by decide +kernel) hout
  rw [hcodec] at hp htears
  exact ⟨hout, hleak, p, hp, htears ▸ hleak⟩

end TemplateTidy
