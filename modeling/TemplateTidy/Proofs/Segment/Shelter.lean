import TemplateTidy.Proofs.Segment.Leak

/-!
# Code that comes through the layout

The layout divides markup into chunks and changes nothing inside of one. So a
segment comes through as it stands if its code, escaped, lies within one word of
the disguised template: in a comment, in a quoted attribute value, in the content
of a script. Such a segment is *sheltered*.

A segment is not sheltered where the layout divides the code: where code holds
what ends the element around it, or where the segment stands in a tag and quotes
and brackets before it hide the comment it is wrapped in. White space in the code
is then laid out like that of the markup.

Main result: `beautify_keeps_sheltered`.
-/

namespace TemplateTidy

open Chunk (textOf)
open Edit (Trail)

/-! ## Texts within one word -/

namespace Chunk

/-- So many characters from an offset on lie within one word. -/
def shelters : List Chunk → Nat → Nat → Bool
  | [], _, _ => false
  | gap s :: rest, start, length =>
    decide (s.length ≤ start) && shelters rest (start - s.length) length
  | word s :: rest, start, length =>
    if start < s.length then decide (start + length ≤ s.length)
    else shelters rest (start - s.length) length

/-- A text that does not begin in the first chunk begins in the others. -/
theorem eq_append_of_length_le {s more before code after : Text} (h : s.length ≤ before.length)
    (htext : s ++ more = before ++ code ++ after) :
    ∃ before', before = s ++ before' ∧ more = before' ++ code ++ after := by
  rw [List.append_assoc] at htext
  obtain ⟨before', rfl⟩ := List.prefix_of_prefix_length_le (List.prefix_append s more)
    ⟨code ++ after, htext.symm⟩ h
  rw [List.append_assoc] at htext
  refine ⟨before', rfl, ?_⟩
  rw [List.append_assoc]
  exact List.append_cancel_left htext

/-- What is sheltered lies within one word of the chunks. -/
theorem exists_word_of_shelters {chunks : List Chunk} {before code after : Text}
    (h : shelters chunks before.length code.length = true)
    (htext : textOf chunks = before ++ code ++ after) :
    ∃ a x₁ x₂ b, chunks = a ++ word (x₁ ++ code ++ x₂) :: b ∧ before = textOf a ++ x₁ := by
  induction chunks generalizing before with
  | nil => exact Bool.noConfusion h
  | cons x chunks ih =>
    rw [textOf_cons] at htext
    -- what is found among the others stands behind the first chunk
    have hskip : x.text.length ≤ before.length →
        shelters chunks (before.length - x.text.length) code.length = true →
        ∃ a x₁ x₂ b, x :: chunks = a ++ word (x₁ ++ code ++ x₂) :: b ∧ before = textOf a ++ x₁ := by
      intro hle hrest
      obtain ⟨before', rfl, htext'⟩ := eq_append_of_length_le hle htext
      rw [List.length_append, Nat.add_sub_cancel_left] at hrest
      obtain ⟨a, x₁, x₂, b, rfl, rfl⟩ := ih hrest htext'
      exact ⟨x :: a, x₁, x₂, b, rfl, by rw [textOf_cons, List.append_assoc]⟩
    cases x with
    | gap s =>
      rw [shelters, Bool.and_eq_true, decide_eq_true_eq] at h
      exact hskip h.1 h.2
    | word s =>
      rw [shelters] at h
      split at h
      · have hlength : (before ++ code).length ≤ s.length := by
          rw [List.length_append]
          exact of_decide_eq_true h
        obtain ⟨x₂, hx₂⟩ := List.prefix_of_prefix_length_le ⟨after, htext.symm⟩
          (List.prefix_append s (textOf chunks)) hlength
        exact ⟨[], before, x₂, chunks, by rw [hx₂, List.nil_append], rfl⟩
      · rename_i hstart
        exact hskip (Nat.le_of_not_lt hstart) h

end Chunk

theorem Edit.copy_append (s t : Text) : Edit.copy (s ++ t) = Edit.copy s ++ Edit.copy t :=
  List.map_append

theorem Edit.copy_cons (c : Char) (s : Text) : Edit.copy (c :: s) = .keep [] c :: Edit.copy s := rfl

/-- What lies within a word is copied, maybe with white space before it. -/
theorem Typeset.exists_copied {cut : Text → Prop} {chunks : List Chunk} {cells : List Cell}
    {rest : Text} (h : Typeset cut chunks cells rest) {a b : List Chunk} {x₁ x₂ more : Text}
    {first : Char} (hchunks : chunks = a ++ .word (x₁ ++ first :: more ++ x₂) :: b) :
    ∃ es pad es', edits cells rest = es ++ .keep pad first :: Edit.copy more ++ es' ∧
      Edit.source es = textOf a ++ x₁ := by
  obtain ⟨front, x, back, rfl, hsolid, hgap⟩ := h.sets.exists_cell hchunks
  -- the white space before a word is copied with it if it stays, and otherwise stands before
  -- its first character, which need not be `first`
  by_cases hsame : x.gap = x.pad
  · refine ⟨front.flatMap Cell.edits ++ Edit.copy (x.gap ++ x₁), [],
      Edit.copy x₂ ++ (back.flatMap Cell.edits ++ rest.map .drop), ?_, ?_⟩
    · rw [edits, List.flatMap_append, List.flatMap_cons, Cell.edits, if_pos hsame, hsolid]
      simp only [Edit.copy_append, Edit.copy_cons, List.append_assoc, List.cons_append]
    · rw [Edit.source_append, Cell.source_edits, Edit.source_copy, ← List.append_assoc, hgap]
  · cases x₁ with
    | nil =>
      have hsolid' : x.solid = first :: (more ++ x₂) := hsolid
      refine ⟨front.flatMap Cell.edits ++ x.gap.map .drop, x.pad,
        Edit.copy x₂ ++ (back.flatMap Cell.edits ++ rest.map .drop), ?_, ?_⟩
      · rw [edits, List.flatMap_append, List.flatMap_cons, Cell.edits_of_ne hsame hsolid']
        simp only [Edit.copy_append, List.append_assoc, List.cons_append]
      · rw [Edit.source_append, Cell.source_edits, Edit.source_map_drop, hgap, List.append_nil]
    | cons d ds =>
      have hsolid' : x.solid = d :: (ds ++ first :: more ++ x₂) := hsolid
      refine ⟨front.flatMap Cell.edits ++ (x.gap.map .drop ++ .keep x.pad d :: Edit.copy ds), [],
        Edit.copy x₂ ++ (back.flatMap Cell.edits ++ rest.map .drop), ?_, ?_⟩
      · rw [edits, List.flatMap_append, List.flatMap_cons, Cell.edits_of_ne hsame hsolid']
        simp only [Edit.copy_append, Edit.copy_cons, List.append_assoc, List.cons_append]
      · rw [Edit.source_append, Cell.source_edits, Edit.source_append, Edit.source_map_drop,
          Edit.source_keep, Edit.source_copy, ← List.append_assoc, hgap]

/-! ## Sheltered segments -/

namespace Outline

/-- The segments whose code, escaped, lies within one word of the chunks. The first
gap ends at the offset. -/
def shelteredFrom (k : Codec) (ranges : List ContextRange) (chunks : List Chunk) :
    Nat → List (Segment × Text) → List Segment
  | _, [] => []
  | offset, (g, gap) :: rest =>
    let others :=
      shelteredFrom k ranges chunks (offset + (g.hidden k ranges).length + gap.length) rest
    if Chunk.shelters chunks (offset + (k.wrapStart (g.style ranges)).length)
        (g.escaped k ranges).length then g :: others
    else others

/-- More text behind the last segment. -/
theorem exists_append (o : Outline) (t : Text) :
    ∃ o' : Outline, o'.segments = o.segments ∧ ∀ write, o'.weave write = o.weave write ++ t := by
  obtain ⟨first, rest⟩ := o
  rcases List.eq_nil_or_concat rest with rfl | ⟨rest, ⟨g, gap⟩, rfl⟩
  · exact ⟨⟨first ++ t, []⟩, rfl, fun write => by simp [weave]⟩
  · refine ⟨⟨first, rest ++ [(g, gap ++ t)]⟩, ?_, fun write => ?_⟩
    · simp [segments]
    · simp [weave]

end Outline

/-- The segments of a prepared template that the layout does not divide. -/
def Prepared.sheltered (o : MarkupOptions) (p : Prepared) : List Segment :=
  let outline := Outline.ofTokens p.tokens
  Outline.shelteredFrom p.codec p.ranges (Item.chunksOf o (Item.scan o p.disguised))
    outline.first.length outline.rest

/-! ## Segment by segment -/

theorem Edit.length_source (es : List Edit) : (Edit.source es).length = es.length :=
  List.length_map _

/-- The code of a segment begins with an opening bracket and ends with a closing one. -/
theorem Segment.escaped_eq_cons {g : Segment} (hg : "<?".toList <+: g.opener) (k : Codec)
    (ranges : List ContextRange) :
    ∃ more, g.escaped k ranges = '<' :: more ∧ ('<' :: more).getLast? = some '>' := by
  obtain ⟨rest, hrest⟩ := hg
  have hopener : g.opener = '<' :: '?' :: rest := hrest.symm
  have hescaped : g.escaped k ranges = '<' :: ('?' :: rest ++
      g.inner.flatMap (k.encode (g.style ranges)) ++ ['?'] ++ ['>']) := by
    rw [escaped, hopener]
    simp [Disguise.suppliedClose]
  exact ⟨_, hescaped, by rw [← List.cons_append, List.getLast?_concat]⟩

namespace Outline

open TemplateTidy.Symbol

variable {k : Codec} {cut : Text → Prop} {chunks : List Chunk} {cells : List Cell} {left : Text}

/-- The edits of a sheltered segment: those before it, its own, which copy it, and
those behind it. -/
theorem exists_edits_of_shelters (h : Typeset cut chunks cells left) {g : Segment}
    {ranges : List ContextRange} {done es : List Edit} (hes : Typeset.edits cells left = done ++ es)
    {front back more : Text} (hmore : g.escaped k ranges = '<' :: more)
    (hsource : Edit.source es = front ++ g.escaped k ranges ++ back)
    (hshelters : Chunk.shelters chunks ((Edit.source done).length + front.length)
      (g.escaped k ranges).length = true) :
    ∃ es₁ pad es₂, es = es₁ ++ .keep pad '<' :: Edit.copy more ++ es₂ ∧ Edit.source es₁ = front ∧
      Edit.source es₂ = back := by
  have htext : textOf chunks = (Edit.source done ++ front) ++ g.escaped k ranges ++ back := by
    rw [← h.source_edits, hes, Edit.source_append, hsource]
    simp
  rw [← List.length_append] at hshelters
  obtain ⟨a, x₁, x₂, b, hchunks, hbefore⟩ := Chunk.exists_word_of_shelters hshelters htext
  rw [hmore] at hchunks
  obtain ⟨es₀, pad, es₂, hedits, hes₀⟩ := h.exists_copied hchunks
  rw [← hbefore] at hes₀
  -- the edits that are done come first
  have hlength : done.length ≤ es₀.length := by
    have hsame := congrArg List.length hes₀
    rw [List.length_append, Edit.length_source, Edit.length_source] at hsame
    omega
  have hedits' : done ++ es = es₀ ++ (.keep pad '<' :: Edit.copy more ++ es₂) := by
    rw [← hes, hedits, List.append_assoc]
  obtain ⟨es₁, rfl⟩ := List.prefix_of_prefix_length_le ⟨es, rfl⟩ ⟨_, hedits'.symm⟩ hlength
  rw [List.append_assoc] at hedits'
  have hsplit : es = es₁ ++ (.keep pad '<' :: Edit.copy more ++ es₂) :=
    List.append_cancel_left hedits'
  rw [Edit.source_append] at hes₀
  have hfront : Edit.source es₁ = front := List.append_cancel_left hes₀
  refine ⟨es₁, pad, es₂, by rw [hsplit, List.append_assoc], hfront, ?_⟩
  rw [hsplit, hmore, Edit.source_append, hfront, List.append_assoc] at hsource
  have hrest := List.append_cancel_left hsource
  simp only [List.cons_append, Edit.source_keep, Edit.source_append, Edit.source_copy] at hrest
  exact List.append_cancel_left (List.cons.inj hrest).2

/-- Behind the edits that are done, others spell anew what begins with `lead` and goes on with
segments and gaps. The symbols they make mean the sheltered segments with something between. -/
def Kept (k : Codec) (ranges : List ContextRange) (chunks : List Chunk) (extra : Text)
    (rest : List (Segment × Text)) (lead : List Symbol) (done es : List Edit) : Prop :=
  ∃ syms syms', syms.flatMap sense =
      lead.flatMap sense ++ rest.flatMap (fun (g, gap) => g.source ++ gap) ++ extra ∧
    Respells k ((Trail.atEnd []).run done) es syms syms' ∧
    ∃ o : Outline, o.segments =
        shelteredFrom k ranges chunks ((Edit.source done).length + (flat k lead).length) rest ∧
      syms'.flatMap (meaning k) = o.weave Segment.source

variable {ranges : List ContextRange} {extra gap : Text} {rest : List (Segment × Text)}
  {lead : List Symbol} {done es : List Edit} {g : Segment}

/-- Behind the last segment there is only the lead. -/
theorem kept_nil (hk : k.Branded) (hcut : CutsTags cut) (h : Typeset cut chunks cells left)
    (hlead : ∀ σ ∈ lead, σ.Fresh) (hes : Typeset.edits cells left = done ++ es)
    (hsource : Edit.source es = flat k lead ++ extra) :
    Kept k ranges chunks extra [] lead done es := by
  have hsound := h.sound_edits
  rw [hes, Edit.allSound_append] at hsound
  have hflat : Edit.source es = flat k (lead ++ extra.map plain) := by
    rw [hsource, flat_append, flat_map_plain]
  obtain ⟨syms', hrespells, -⟩ := exists_respells hk hcut
    (List.forall_mem_append.mpr ⟨hlead, Segment.fresh_map_plain extra⟩) hflat hsound.2
  refine ⟨_, syms', ?_, hrespells, ⟨syms'.flatMap (meaning k), []⟩, rfl, ?_⟩
  · rw [List.flatMap_append, sense_map_plain, List.flatMap_nil, List.append_nil]
  · rw [weave, List.flatMap_nil, List.append_nil]

/-- A sheltered segment is copied: what is in front of it and its opening sentinel are spelt
anew, and its closing sentinel begins what comes behind. -/
theorem Kept.sheltered {more pad : Text} {es₁ es₂ : List Edit} {syms₁ code : List Symbol}
    (h : Kept k ranges chunks extra rest (Segment.closing (g.style ranges) :: gap.map plain)
      (done ++ es₁ ++ .keep pad '<' :: Edit.copy more) es₂)
    (hmore : g.escaped k ranges = '<' :: more)
    (hes₁ : Edit.source es₁ = flat k lead ++ k.wrapStart (g.style ranges))
    (hrespells₁ : Respells k ((Trail.atEnd []).run done) es₁
      (lead ++ [Segment.opening (g.style ranges)]) syms₁)
    (hcode : code.flatMap sense = g.source) (hfresh : ∀ σ ∈ code, σ.Fresh)
    (hcopied : Respells k (((Trail.atEnd []).run done).run es₁) (.keep pad '<' :: Edit.copy more)
      code (pad.map plain ++ code))
    (hshelters : Chunk.shelters chunks ((Edit.source done).length + (flat k lead).length +
      (k.wrapStart (g.style ranges)).length) (g.escaped k ranges).length = true) :
    Kept k ranges chunks extra ((g, gap) :: rest) lead done
      (es₁ ++ .keep pad '<' :: Edit.copy more ++ es₂) := by
  obtain ⟨syms, syms', hsyms, hrespells, o, hsegments, hmeaning⟩ := h
  rw [List.append_assoc, Trail.run_append] at hrespells
  refine ⟨_, _, ?_, (hrespells₁.append hcopied).append hrespells,
    ⟨syms₁.flatMap (meaning k) ++ pad, (g, o.first) :: o.rest⟩, ?_, ?_⟩
  · rw [List.flatMap_append, List.flatMap_append, List.flatMap_append, hcode, hsyms,
      List.flatMap_singleton, (Segment.opening_fresh _).2, List.flatMap_cons,
      (Segment.closing_fresh _).2, sense_map_plain, List.flatMap_cons]
    simp
  · rw [shelteredFrom, if_pos hshelters, segments, List.map_cons, ← segments, hsegments, flat_cons,
      Segment.text_closing, flat_map_plain]
    congr 2
    have hlengths := congrArg List.length hes₁
    simp only [Edit.source_append, Edit.source_keep, Edit.source_copy, List.length_append,
      List.length_cons, Segment.hidden, hmore] at hlengths ⊢
    omega
  · rw [List.flatMap_append, List.flatMap_append, List.flatMap_append, meaning_map_plain,
      List.flatMap_congr fun σ hσ => (hfresh σ hσ).meaning_eq k, hcode, hmeaning]
    simp [weave]

/-- Any other segment is laid out like a gap: it becomes part of the lead. -/
theorem Kept.exposed {inner : List Symbol}
    (h : Kept k ranges chunks extra rest (lead ++ inner ++ gap.map plain) done es)
    (hinner : g.hidden k ranges = flat k inner) (hsense : inner.flatMap sense = g.source)
    (hshelters : ¬ Chunk.shelters chunks ((Edit.source done).length + (flat k lead).length +
      (k.wrapStart (g.style ranges)).length) (g.escaped k ranges).length = true) :
    Kept k ranges chunks extra ((g, gap) :: rest) lead done es := by
  obtain ⟨syms, syms', hsyms, hrespells, o, hsegments, hmeaning⟩ := h
  refine ⟨syms, syms', ?_, hrespells, o, ?_, hmeaning⟩
  · rw [hsyms, List.flatMap_append, List.flatMap_append, hsense, sense_map_plain,
      List.flatMap_cons]
    simp
  · rw [shelteredFrom, if_neg hshelters, hsegments, flat_append, flat_append, flat_map_plain,
      ← hinner, List.length_append, List.length_append, ← Nat.add_assoc, ← Nat.add_assoc]

/-- **The sheltered segments come through.** -/
theorem exists_kept (hk : k.Branded) (hcut : CutsTags cut) (h : Typeset cut chunks cells left)
    (ranges : List ContextRange) (extra : Text)
    (hopen : ∀ x ∈ rest, "<?".toList <+: x.1.opener) (hlead : ∀ σ ∈ lead, σ.Fresh)
    (hes : Typeset.edits cells left = done ++ es)
    (hsource : Edit.source es =
      flat k lead ++ rest.flatMap (fun (g, gap) => g.hidden k ranges ++ gap) ++ extra) :
    Kept k ranges chunks extra rest lead done es := by
  induction rest generalizing lead done es with
  | nil =>
    rw [List.flatMap_nil, List.append_nil] at hsource
    exact kept_nil hk hcut h hlead hes hsource
  | cons x rest ih =>
    obtain ⟨g, gap⟩ := x
    obtain ⟨hopener, hopen'⟩ := List.forall_mem_cons.mp hopen
    by_cases hshelters : Chunk.shelters chunks ((Edit.source done).length + (flat k lead).length +
        (k.wrapStart (g.style ranges)).length) (g.escaped k ranges).length = true
    · -- a sheltered segment is copied
      obtain ⟨more, hmore, hlast⟩ := Segment.escaped_eq_cons hopener k ranges
      obtain ⟨code, hcode, hsense, hfresh⟩ := g.escaped_eq_flat k ranges
      have hsource' : Edit.source es = (flat k lead ++ k.wrapStart (g.style ranges)) ++
          g.escaped k ranges ++ (k.wrapEnd (g.style ranges) ++ gap ++
            rest.flatMap (fun (g, gap) => g.hidden k ranges ++ gap) ++ extra) := by
        rw [hsource, List.flatMap_cons]
        simp [Segment.hidden]
      have hwithin := hshelters
      rw [Nat.add_assoc, ← List.length_append] at hwithin
      obtain ⟨es₁, pad, es₂, rfl, hes₁, hes₂⟩ :=
        exists_edits_of_shelters h hes hmore hsource' hwithin
      have hsound := h.sound_edits
      rw [hes, Edit.allSound_append, Edit.allSound_append, Edit.allSound_append] at hsound
      obtain ⟨-, ⟨hsound₁, hsoundCode⟩, -⟩ := hsound
      -- the gap before the segment with the sentinel that opens it, the segment, and the rest
      have hflat₁ : Edit.source es₁ = flat k (lead ++ [Segment.opening (g.style ranges)]) := by
        rw [hes₁, flat_append, flat_cons, flat_nil, List.append_nil, Segment.text_opening]
      obtain ⟨syms₁, hrespells₁, -⟩ := exists_respells hk hcut
        (List.forall_mem_append.mpr
          ⟨hlead, List.forall_mem_singleton.mpr (Segment.opening_fresh _).1⟩) hflat₁ hsound₁
      have hcopied := respells_copy hfresh (hcode.symm.trans hmore) hsoundCode.1
        ⟨by decide, by decide⟩ (by rw [hlast]; decide)
      have hlead' : ∀ σ ∈ Segment.closing (g.style ranges) :: gap.map plain, σ.Fresh :=
        List.forall_mem_cons.mpr ⟨(Segment.closing_fresh _).1, Segment.fresh_map_plain gap⟩
      have hes' : Typeset.edits cells left =
          (done ++ es₁ ++ .keep pad '<' :: Edit.copy more) ++ es₂ := by
        rw [hes]
        simp
      have hkept := ih hopen' hlead' hes' (by
        rw [hes₂, flat_cons, Segment.text_closing, flat_map_plain])
      exact hkept.sheltered hmore hes₁ hrespells₁ hsense hfresh hcopied hshelters
    · -- any other one joins the symbols in front of the next
      obtain ⟨inner, hinner, hsense, hfresh⟩ := g.hidden_eq_flat k ranges
      have hlead' : ∀ σ ∈ lead ++ inner ++ gap.map plain, σ.Fresh :=
        List.forall_mem_append.mpr
          ⟨List.forall_mem_append.mpr ⟨hlead, hfresh⟩, Segment.fresh_map_plain gap⟩
      have hsource' : Edit.source es = flat k (lead ++ inner ++ gap.map plain) ++
          rest.flatMap (fun (g, gap) => g.hidden k ranges ++ gap) ++ extra := by
        rw [hsource, flat_append, flat_append, flat_map_plain, ← hinner, List.flatMap_cons]
        simp
      exact (ih hopen' hlead' hes hsource').exposed hinner hsense hshelters

end Outline

/-! ## The result -/

/-- A template whose disguise is blank has no segments. -/
theorem Outline.rest_eq_nil {o : Outline} {k : Codec} {ranges : List ContextRange}
    (hopen : ∀ x ∈ o.rest, "<?".toList <+: x.1.opener)
    (h : (o.weave (Segment.hidden k ranges)).Blank) : o.rest = [] := by
  rcases hrest : o.rest with _ | ⟨⟨g, gap⟩, rest⟩
  · rfl
  · have hg : (g, gap) ∈ o.rest := by
      rw [hrest]
      exact List.mem_cons_self ..
    obtain ⟨more, hmore, -⟩ := Segment.escaped_eq_cons (hopen _ hg) k ranges
    have hlt : '<' ∈ o.weave (Segment.hidden k ranges) := by
      refine (infix_weave_of_mem (Segment.hidden k ranges) hg).subset ?_
      simp [Segment.hidden, hmore]
    exact absurd (h.of_mem hlt) (by decide)

/-- **Sheltered segments pass through.** Laid out in full under the options of any
record, a template still holds its sheltered segments, each as it stands and all in
order, with something between. -/
theorem beautify_keeps_sheltered (draws : Draws) (draw : Nat) (r : Record) (shortTags : Bool)
    (s out : Text) (hfull : isWholeCodeBlock s = false)
    (hout : (beautify draws draw (.ofRecord r) shortTags s).result = .ok out) :
    ∃ p, prepare (Codec.forText draws draw s).1 shortTags s = .ok p ∧
      ∃ o : Outline, o.segments = p.sheltered (.ofRecord r) ∧ out = o.weave Segment.source := by
  have hk := Codec.branded_forText draws draw s
  have hs := Codec.collides_forText draws draw s
  obtain ⟨p, formatted, hprepare, hformat, rfl⟩ := exists_of_beautify hfull hout
  refine ⟨p, hprepare, ?_⟩
  obtain ⟨hcodec, htokens, hdisguised⟩ := prepare_spec hprepare
  have hopen : ∀ x ∈ (Outline.ofTokens (tokenize shortTags s)).rest, "<?".toList <+: x.1.opener :=
    fun x hx => opener_of_mem_segments (List.mem_map_of_mem hx)
  have hclean := collides_outline hs shortTags
  rw [Prepared.sheltered, hcodec, htokens]
  generalize (Codec.forText draws draw s).1 = k at *
  generalize Outline.ofTokens (tokenize shortTags s) = outline at *
  -- the markup is blank, or it is printed cell by cell with white space changed between
  rcases formatMarkup_spec (MarkupOptions.indentsBlank_ofRecord r) hformat with
    ⟨hblank, rfl⟩ | ⟨cells, left, feed, hfeed, rfl, htypeset⟩
  · rw [hdisguised] at hblank
    exact ⟨⟨[], []⟩, by rw [Outline.rest_eq_nil hopen hblank]; rfl, rfl⟩
  · have hfollows : Item.Follows none (Item.scan (.ofRecord r) p.disguised) :=
      Item.follows_scan _ (.inl rfl)
    obtain ⟨extra, htext, hextra⟩ := Item.textOf_chunksOf (.ofRecord r) hfollows
    have hsource : Edit.source (Typeset.edits cells left) =
        Symbol.flat k (outline.first.map .plain) ++
          outline.rest.flatMap (fun (g, gap) => g.hidden k p.ranges ++ gap) ++ extra := by
      rw [htypeset.source_edits, htext, Item.rawOf_scan, hdisguised, Symbol.flat_map_plain,
        Outline.weave]
    -- the cells spell the symbols of the disguise anew, the sheltered segments among them
    obtain ⟨syms, syms', hsense, hrespells, o, hsegments, hmeaning⟩ :=
      Outline.exists_kept hk (Item.cutsTags_cutsOf hfollows) htypeset p.ranges extra hopen
        (Segment.fresh_map_plain outline.first) (List.nil_append _).symm hsource
    have hclean' : k.collides (syms.flatMap Symbol.sense) = false := by
      rw [hsense, Symbol.sense_map_plain]
      refine Codec.collides_append_separators hclean ?_
      rcases hextra with rfl | rfl
      · exact List.forall_mem_nil _
      · exact List.forall_mem_singleton.mpr (by decide)
    -- decoding gives what the new symbols mean
    have hdecode := (hrespells.decode hk hclean' hfeed).2
    rw [htypeset.printed_edits, List.flatMap_append, Symbol.meaning_map_plain, hmeaning] at hdecode
    obtain ⟨o', hsegments', hweave⟩ := o.exists_append feed
    refine ⟨o', ?_, by rw [hdecode, hweave]⟩
    rw [hsegments', hsegments, Edit.source_nil, List.length_nil, Nat.zero_add,
      Symbol.flat_map_plain]

/-- Code in a quoted attribute and code in the text of a paragraph, both sheltered. -/
theorem beautify_keeps_sheltered_paragraph :
    let s := "<p title=\"<?= f('x  y') ?>\">\n\n<?php echo 1 ?></p>".toList
    let out := "<p title=\"<?= f('x  y') ?>\">\n    <?php echo 1 ?>\n</p>".toList
    (beautify Draws.counter 0 (.ofRecord []) false s).result = .ok out ∧
      ∃ o : Outline, o.segments = (Outline.ofTokens (tokenize false s)).segments ∧
        out = o.weave Segment.source := by
  intro s out
  have hout : (beautify Draws.counter 0 (.ofRecord []) false s).result = .ok out := by
    decide +kernel
  have hcodec : (Codec.forText Draws.counter 0 s).1 = Codec.usual := rfl
  have hall : (prepare Codec.usual false s).toOption.map (·.sheltered (.ofRecord [])) =
      some (Outline.ofTokens (tokenize false s)).segments := by
    decide +kernel
  obtain ⟨p, hp, o, hsegments, hweave⟩ :=
    beautify_keeps_sheltered Draws.counter 0 [] false s out (by decide +kernel) hout
  rw [hcodec] at hp
  rw [hp] at hall
  exact ⟨hout, o, hsegments.trans (Option.some.inj hall), hweave⟩

/-- Code that ends the element around it is divided there, and white space in the
rest of it is laid out. -/
theorem beautify_divides_preformatted :
    let s := "<pre><?php echo \"</pre>   x\" ?></pre>".toList
    let out := "<pre><?php echo \"</pre>\nx\" ?>\n</pre>".toList
    (beautify Draws.counter 0 (.ofRecord []) false s).result = .ok out ∧
      isWholeCodeBlock s = false ∧
      ¬ ∃ o : Outline, o.segments = (Outline.ofTokens (tokenize false s)).segments ∧
        out = o.weave Segment.source := by
  intro s out
  have hsegments : (Outline.ofTokens (tokenize false s)).segments =
      [⟨5, "<?php".toList, [" echo \"</pre>   x\" ".toList]⟩] := by
    decide +kernel
  refine ⟨by decide +kernel, by decide +kernel, ?_⟩
  rintro ⟨o, ho, hweave⟩
  rw [hsegments] at ho
  -- the segment would have to occur in the result
  obtain ⟨⟨g, gap⟩, hmem, hg⟩ := List.mem_map.mp (ho ▸ List.mem_singleton_self _)
  have hinfix := (List.prefix_append _ gap).isInfix.trans
    (Outline.infix_weave_of_mem Segment.source hmem)
  rw [← hweave, ← Text.occursIn_iff, show g = _ from hg] at hinfix
  exact absurd hinfix (by decide +kernel)

end TemplateTidy
