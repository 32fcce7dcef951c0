import TemplateTidy.Markup.Format
import TemplateTidy.Proofs.Markup.Rendering
import TemplateTidy.Proofs.Markup.Scan

/-!
# What the layout prints

The layout prints the chunks of its items one after the other. What holds of the
printer all the way is `Flow`: the solid part of what has been printed is the
cells of the chunks so far, soundly typeset, and white space of the source is
owed until something is printed behind it.

Every way of printing something gets one lemma (`Prints`), every kind of item a
step lemma, and the run lemma follows by induction on the items.

Main results: `Layout.flow_step`, `Layout.flow_run`, `formatMarkup_spec`.
-/

namespace TemplateTidy

open Chunk

/-! ## Ways of printing -/

namespace Layout

open Printer

variable {o : MarkupOptions}

/-- The end of an element is printed behind the solid part. -/
theorem prints_end (ho : o.IndentsBlank) (p : Printer) (e : OpenElement) (extra : Bool) (s : Text) :
    Prints p (printEnd o p e extra s) s := by
  unfold printEnd
  dsimp only
  split
  · -- the end starts a line
    have hblock := places_placeBlock o p
    split
    · exact (prints_write ho (places_wrap hblock 1) s).of_eq rfl rfl
    · exact (prints_write ho hblock s).of_eq rfl rfl
  · exact (prints_write ho (places_place o p false false) s).of_eq rfl rfl

/-- A start tag that flows is printed, rendered for the place where it stands. -/
theorem prints_inlineStart (ho : o.IndentsBlank) (p : Printer) (tag : StartTag) :
    ∃ depth column, Prints p (printInlineStart o p tag) (tag.render o depth column) := by
  have hplace := places_place o p false false
  unfold printInlineStart
  dsimp only
  split
  · exact ⟨_, _, prints_write ho hplace _⟩
  · exact ⟨_, _, prints_write ho (places_wrap hplace 0) _⟩

/-- So is one that gets a line of its own. -/
theorem prints_blockStart (ho : o.IndentsBlank) (p : Printer) (tag : StartTag) :
    ∃ depth column, Prints p (printBlockStart o p tag) (tag.render o depth column) := by
  have hblock := places_placeBlock o p
  unfold printBlockStart
  dsimp only
  split
  · exact ⟨_, _, (prints_write ho (places_wrap hblock 1) _).of_eq rfl rfl⟩
  · exact ⟨_, _, (prints_write ho hblock _).of_eq rfl rfl⟩

/-- A block starts on a line without content. -/
theorem hasContent_placeBlock (o : MarkupOptions) (p : Printer) :
    (p.placeBlock o).hasContent = false := by
  unfold placeBlock place
  dsimp only
  rw [Bool.true_or, Bool.true_or]
  split
  · rename_i hblank
    split
    · rfl
    · have hline : p.hasContent = false := by simpa using hblank
      exact hline
  · rfl

/-- **A tag of a handlebars block is printed** behind the solid part. -/
theorem prints_blockTag (ho : o.IndentsBlank) (l : Layout) (tag : Text) :
    Prints l.printer (l.onBlockTag o tag).printer tag := by
  have hblock := places_placeBlock o l.printer
  unfold onBlockTag
  split
  · exact (prints_write ho hblock tag).of_eq rfl rfl
  · exact (prints_write ho hblock tag).of_eq rfl rfl
  · split
    · exact prints_block ho l.printer tag
    · rename_i e rest depth hunwind
      have hend := prints_end ho { l.printer with depth := depth } e false tag
      exact ⟨hend.whole_eq, hend.neat⟩
  · -- the blank line is replaced by another indentation, one step further out
    let q := l.printer.placeBlock o
    have houter : Places l.printer { q with depth := max (q.depth - 1) 0 } false :=
      ⟨hblock.shifts.trans (Shifts.of_eq rfl rfl), hblock.owes⟩
    refine (prints_write ho houter tag).of_eq rfl ?_
    have hcontent : hasContent { q with depth := max (q.depth - 1) 0 } = false :=
      hasContent_placeBlock o l.printer
    simp only [spaced, write, Bool.false_eq_true, if_false, hcontent]
    simp [print, q]

end Layout

/-! ## The invariant -/

/-- The chunks so far have been printed, but for white space behind the last of
them, which is owed. -/
structure Flow (cut : Text → Prop) (chunks : List Chunk) (rest : Text) (p : Printer) : Prop where
  neat : p.Neat
  typeset : ∃ cells, Typeset cut chunks cells rest ∧ Cell.printed cells = p.solid ∧
    (rest ≠ [] → cells ≠ [] → p.Owes)

namespace Flow

variable {cut : Text → Prop} {chunks : List Chunk} {rest : Text} {p q : Printer}

/-- What has flowed is told by the lines and the white space noted. -/
theorem of_eq (h : Flow cut chunks rest p) (hlines : q.lines = p.lines) (hline : q.line = p.line)
    (hspace : q.space = p.space) : Flow cut chunks rest q where
  neat := by
    rw [Printer.Neat, hlines]
    exact h.neat
  typeset := by
    have hwhole : q.whole = p.whole := by rw [Printer.whole, Printer.whole, hlines, hline]
    obtain ⟨cells, htypeset, hprinted, howes⟩ := h.typeset
    refine ⟨cells, htypeset, ?_, ?_⟩
    · rw [hprinted, Printer.solid, Printer.solid, hwhole]
    · rw [Printer.Owes, Printer.gap, hspace, hwhole]
      exact howes

/-- Cuts may be told in other words. -/
theorem congr {cut' : Text → Prop} (h : Flow cut chunks rest p) (hcut : ∀ t, cut' t ↔ cut t) :
    Flow cut' chunks rest p where
  neat := h.neat
  typeset := by
    obtain ⟨cells, htypeset, hflow⟩ := h.typeset
    exact ⟨cells, htypeset.congr hcut, hflow⟩

/-- White space that is noted is owed. -/
theorem noteGap (h : Flow cut chunks rest p) {s : Text} (hs : s.Blank) :
    Flow cut (chunks ++ [.gap s]) (rest ++ s) (p.noteGap s) where
  neat := h.neat
  typeset := by
    obtain ⟨cells, htypeset, hprinted, -⟩ := h.typeset
    exact ⟨cells, htypeset.gap hs, hprinted, fun _ _ => .inl rfl⟩

/-- Something with letters comes behind the solid part, typeset as more chunks. -/
theorem advance (h : Flow cut chunks rest p) {s w : Text} (hs : ¬ s.Blank) (hw : w.Blank)
    (hwhole : q.whole = p.solid ++ w ++ s) (howes : rest ≠ [] → p.Owes → p.solid ≠ [] → w ≠ [])
    (hneat : q.Neat) {c : Char} (hopens : rest = [] → Cell.Opens cut (textOf chunks) c)
    {cut' : Text → Prop} {more : List Chunk}
    (hmore : ∀ cells, Typeset cut chunks cells rest → Typeset.Leads cut chunks cells rest w c →
      ∃ cells', Typeset cut' (chunks ++ more) (cells ++ cells') (Text.trailing s) ∧
        Cell.printed cells' = w ++ Text.trimRight s) :
    Flow cut' (chunks ++ more) (Text.trailing s) q where
  neat := hneat
  typeset := by
    obtain ⟨cells, htypeset, hprinted, hdebt⟩ := h.typeset
    have hleads : Typeset.Leads cut chunks cells rest w c := by
      refine ⟨hw, fun hrest _ => hopens hrest, fun hrest hnil => ?_⟩
      -- the white space that is owed has been put in
      by_contra hne
      have hsolid : p.solid ≠ [] := hprinted ▸ htypeset.printed_ne_nil hne
      exact howes hrest (hdebt hrest hne) hsolid hnil
    obtain ⟨cells', htypeset', hprinted'⟩ := hmore cells htypeset hleads
    refine ⟨cells ++ cells', htypeset', ?_, fun hrest _ => .inr ?_⟩
    · rw [Printer.solid, hwhole, Text.trimRight_append hs, Cell.printed_append, hprinted,
        hprinted', List.append_assoc]
    · rwa [Printer.gap, hwhole, Text.trailing_append hs]

/-- Something is printed that is copied as it stands. -/
theorem solid (h : Flow cut chunks rest p) {s : Text} (hprints : Printer.Prints p q s) {c : Char}
    (hc : (Text.trimRight s).head? = some c)
    (hopens : rest = [] → Cell.Opens cut (textOf chunks) c) :
    Flow cut (chunks ++ Chunk.solid s) (Text.trailing s) q := by
  have hs : ¬ s.Blank := by
    intro hblank
    rw [Text.trimRight_eq_nil_iff.mpr hblank] at hc
    cases hc
  obtain ⟨w, hw, hwhole, howes⟩ := hprints.whole_eq
  refine h.advance hs hw hwhole (fun _ => howes) (hprints.neat h.neat) hopens ?_
  intro cells htypeset hleads
  obtain ⟨x, hx⟩ := htypeset.solid hleads hc
  exact ⟨[x], hx⟩

/-- A word of a text is printed. -/
theorem word (h : Flow cut chunks rest p) {s : Text} (hprints : Printer.Prints p q s)
    (hne : s ≠ []) (htight : Text.Tight s)
    (hopens : rest = [] → ∀ c, s.head? = some c → Cell.Opens cut (textOf chunks) c) :
    Flow cut (chunks ++ [.word s]) [] q := by
  have hs : ¬ s.Blank := by
    intro hblank
    rw [← Text.trimRight_eq_nil_iff, show Text.trimRight s = s from htight] at hblank
    exact hne hblank
  obtain ⟨c, s', rfl⟩ := List.exists_cons_of_ne_nil hne
  obtain ⟨w, hw, hwhole, howes⟩ := hprints.whole_eq
  rw [← htight.trailing_eq_nil]
  refine h.advance hs hw hwhole (fun _ => howes) (hprints.neat h.neat)
    (fun hrest => hopens hrest c rfl) ?_
  intro cells htypeset hleads
  rw [htight.trailing_eq_nil, htight]
  exact ⟨[⟨rest, w, c :: s'⟩], htypeset.lead hleads s', by simp⟩

/-- Content is put behind the bracket of its start tag. -/
theorem glue (h : Flow cut chunks [] p) (s : Text)
    (hopens : ∀ c, Cell.Opens cut (textOf chunks) c) :
    Flow cut (chunks ++ Chunk.solid s) (Text.trailing s) (p.glue s) := by
  have hwhole : (p.glue s).whole = p.solid ++ p.gap ++ s := by
    rw [Printer.solid_append_gap]
    simp [Printer.whole, Printer.glue]
  by_cases hs : s.Blank
  · -- nothing but more white space at the end
    have hnil : Text.trimRight s = [] := Text.trimRight_eq_nil_iff.mpr hs
    have htrailing : Text.trailing s = s := by
      have hcut := Text.trimRight_append_trailing s
      rwa [hnil, List.nil_append] at hcut
    have hsolid : (p.glue s).solid = p.solid ∧ (p.glue s).gap = p.gap ++ s := by
      have hblank : Text.Blank (p.gap ++ s) := Text.blank_append.mpr ⟨p.blank_gap, hs⟩
      rw [List.append_assoc] at hwhole
      obtain ⟨hsolid, hgap⟩ := Text.eq_trimRight (Text.tight_trimRight _) hblank hwhole
      exact ⟨hsolid.symm, hgap.symm⟩
    obtain ⟨cells, htypeset, hprinted, -⟩ := h.typeset
    rw [Chunk.solid, if_pos hnil, htrailing, List.nil_append]
    refine ⟨h.neat, cells, htypeset.gap hs, hprinted.trans hsolid.1.symm, fun hrest _ => .inr ?_⟩
    rw [hsolid.2]
    exact fun hgap => hrest (List.append_eq_nil_iff.mp hgap).2
  · -- the letters of the content make one more cell
    have hne : Text.trimRight s ≠ [] := fun h => hs (Text.trimRight_eq_nil_iff.mp h)
    obtain ⟨c, s', hc⟩ := List.exists_cons_of_ne_nil hne
    refine h.advance hs p.blank_gap hwhole (fun hrest => absurd rfl hrest) h.neat
      (fun _ => hopens c) ?_
    intro cells htypeset hleads
    obtain ⟨x, hx⟩ := htypeset.solid hleads (by rw [hc, List.head?_cons])
    exact ⟨[x], hx⟩

end Flow

/-! ## The chunks of items -/

namespace Item

/-- The chunks of a text in which tags of handlebars blocks stand out. -/
def blockChunks (raw : Text) : List Chunk :=
  match Text.search? Layout.blockTag raw with
  | none => Chunk.ofText raw
  | some (i, n) =>
    if raw.length < i + n ∨ n = 0 then Chunk.ofText raw
    else
      Chunk.ofText (raw.take i) ++ Chunk.solid ((raw.drop i).take n) ++
        blockChunks (raw.drop (i + n))
termination_by raw.length
decreasing_by
  simp only [List.length_drop]
  omega

/-- The chunks of an item. Only texts and start tags are divided. -/
def chunks (o : MarkupOptions) : Item → List Chunk
  | text raw => if o.indentHandlebars then blockChunks raw else Chunk.ofText raw
  | startTag tag => tag.chunks o
  | endTag raw _ | comment raw | template raw | declaration raw | body raw _ | verbatim raw _ =>
    Chunk.solid raw

/-- The chunks of several items. -/
def chunksOf (o : MarkupOptions) (items : List Item) : List Chunk :=
  items.flatMap (chunks o)

/-- What is supplied at the end of an item. -/
def supplied (o : MarkupOptions) : Item → Text
  | startTag tag => tag.supplied o
  | _ => []

/-- The texts before whose last character white space is put into a start tag. -/
def CutsOf (o : MarkupOptions) (items : List Item) (t : Text) : Prop :=
  ∃ before tag after, items = before ++ startTag tag :: after ∧
    ∃ q ∈ tag.splits o, t = rawOf before ++ q

/-- The chunks of a text with tags of handlebars blocks are the text. -/
theorem textOf_blockChunks (raw : Text) : textOf (blockChunks raw) = raw := by
  fun_induction blockChunks raw with
  | case1 raw hnone => exact textOf_ofText raw
  | case2 raw i n hsome hguard => exact textOf_ofText raw
  | case3 raw i n hsome hguard ih =>
    rw [textOf_append, textOf_append, textOf_ofText, textOf_solid, ih, List.append_assoc,
      ← List.drop_drop, List.take_append_drop, List.take_append_drop]

/-- **The chunks of an item are the item**, with what is supplied at its end. -/
theorem textOf_chunks (o : MarkupOptions) {i : Item} (h : i.Formed) :
    textOf (i.chunks o) = i.raw ++ i.supplied o := by
  cases i with
  | text raw =>
    refine Eq.trans ?_ (List.append_nil raw).symm
    rw [chunks]
    split
    · exact textOf_blockChunks raw
    · exact textOf_ofText raw
  | startTag tag =>
    obtain ⟨c, r, hraw, -⟩ := h
    exact StartTag.textOf_chunks o hraw
  | endTag raw _ | comment raw | template raw | declaration raw | body raw _ | verbatim raw _ =>
    exact (textOf_solid raw).trans (List.append_nil raw).symm

/-- A tag with a bracket is supplied with none. -/
theorem supplied_eq_nil (o : MarkupOptions) {i : Item}
    (h : i.isMarkup = true → i.raw.getLast? = some '>') : i.supplied o = [] := by
  cases i with
  | startTag tag =>
    have hend : Text.endsWith ['>'] tag.raw = true := Tag.endsWith_singleton.mpr (h rfl)
    rw [supplied, StartTag.supplied, hend, Bool.or_true, if_pos rfl]
  | _ => rfl

@[simp] theorem rawOf_append (a b : List Item) : rawOf (a ++ b) = rawOf a ++ rawOf b :=
  List.flatMap_append

@[simp] theorem rawOf_singleton (i : Item) : rawOf [i] = i.raw := by
  simp [rawOf]

@[simp] theorem chunksOf_concat (o : MarkupOptions) (items : List Item) (i : Item) :
    chunksOf o (items ++ [i]) = chunksOf o items ++ i.chunks o := by
  simp [chunksOf]

/-- Without items nothing is cut. -/
theorem cutsOf_nil (o : MarkupOptions) (t : Text) : ¬ CutsOf o [] t := by
  rintro ⟨before, tag, after, h, -⟩
  simp at h

/-- One more item adds the splits of a start tag to the cuts. -/
theorem cutsOf_concat (o : MarkupOptions) (items : List Item) (i : Item) (t : Text) :
    CutsOf o (items ++ [i]) t ↔ CutsOf o items t ∨
      ∃ tag, i = startTag tag ∧ ∃ q ∈ tag.splits o, t = rawOf items ++ q := by
  constructor
  · rintro ⟨before, tag, after, hitems, hq⟩
    rcases List.eq_nil_or_concat after with rfl | ⟨after, z, rfl⟩
    · obtain ⟨rfl, hlast⟩ := List.append_inj' hitems rfl
      exact .inr ⟨tag, List.singleton_inj.mp hlast, hq⟩
    · rw [List.concat_eq_append, ← List.cons_append, ← List.append_assoc] at hitems
      exact .inl ⟨before, tag, after, (List.append_inj' hitems rfl).1, hq⟩
  · rintro (⟨before, tag, after, rfl, hq⟩ | ⟨tag, rfl, hq⟩)
    · exact ⟨before, tag, after ++ [i], by simp, hq⟩
    · exact ⟨items, tag, [], rfl, hq⟩

end Item

/-! ## Texts -/

namespace Layout

variable {o : MarkupOptions} {cut : Text → Prop} {chunks : List Chunk} {rest : Text}

/-- The words of a text, from the step lemmas for gaps and words. -/
theorem flow_chunks (ho : o.IndentsBlank) {more : List Chunk} (hspaced : Spaced more)
    (htight : ∀ w, Chunk.word w ∈ more → Text.Tight w) {l : Layout}
    (h : Flow cut chunks rest l.printer)
    (hopens : rest = [] → ∀ w, more.head? = some (.word w) → ∀ c, w.head? = some c →
      Cell.Opens cut (textOf chunks) c) :
    ∃ rest', Flow cut (chunks ++ more) rest' (more.foldl (fun l chunk =>
      match chunk with
      | .gap s => l.print (·.noteGap s)
      | .word s => l.print (·.inline o s false true)) l).printer := by
  induction more generalizing chunks rest l with
  | nil => exact ⟨rest, by simpa using h⟩
  | cons x more ih =>
    rw [List.foldl_cons, ← List.singleton_append, ← List.append_assoc]
    have htight' : ∀ w, Chunk.word w ∈ more → Text.Tight w :=
      fun w hw => htight w (List.mem_cons_of_mem _ hw)
    cases x with
    | gap s =>
      obtain ⟨hblank, hne, hmore⟩ := hspaced
      refine ih hmore htight' (l := l.print (·.noteGap s)) (h.noteGap hblank) fun hnil => ?_
      -- behind a gap there is white space, so that any word may follow
      exact absurd (List.append_eq_nil_iff.mp hnil).2 hne
    | word s =>
      obtain ⟨hne, hgap, hmore⟩ := hspaced
      have hword := h.word (Printer.prints_inline ho l.printer s false true) hne
        (htight s (List.mem_cons_self ..)) fun hrest => hopens hrest s rfl
      refine ih hmore htight' (l := l.print (·.inline o s false true)) hword fun _ w hw => ?_
      -- two words have a gap between them
      exact absurd hw (hgap w)

/-- Words flow. -/
theorem flow_words (ho : o.IndentsBlank) {l : Layout} (h : Flow cut chunks rest l.printer)
    {raw : Text}
    (hopens : rest = [] → ∀ c, raw.head? = some c → Cell.Opens cut (textOf chunks) c) :
    ∃ rest', Flow cut (chunks ++ Chunk.ofText raw) rest' (l.words o raw).printer := by
  refine flow_chunks ho (spaced_ofText raw) (fun w => tight_of_mem_ofText) h ?_
  intro hrest w hw c hc
  obtain ⟨more, hmore⟩ := List.head?_eq_some_iff.mp hw
  obtain ⟨w', rfl⟩ := List.head?_eq_some_iff.mp hc
  refine hopens hrest c ?_
  have htext := textOf_ofText raw
  rw [hmore, textOf_cons] at htext
  rw [← htext]
  rfl

/-- A tag of a handlebars block stands between braces. -/
theorem blockTag_spec {s : Text} {n : Nat} (h : blockTag s = some n) :
    s.head? = some '\x7b' ∧ (s.take n).getLast? = some '\x7d' := by
  unfold blockTag at h
  split at h
  · rename_i c more
    refine ⟨rfl, ?_⟩
    dsimp only at h
    -- how long the sign at its front is does not matter here
    generalize (if (c == '#' || c == '^' || c == '/') = true then some 3 else
      if ("else".toList.isPrefixOf (c :: more) && Text.endsWord (more.drop 3)) = true then some 6
      else none) = lead at h
    obtain ⟨lead, -, h⟩ := Option.bind_eq_some_iff.mp h
    split at h
    · rename_i hclose
      obtain ⟨after, hafter⟩ := List.isPrefixOf_iff_prefix.mp hclose
      rw [← Option.some.inj h, List.take_add, List.getLast?_append, ← hafter]
      rfl
    · cases h
  · cases h

/-- **A text with tags of handlebars blocks flows**, part by part. -/
theorem flow_blocks (ho : o.IndentsBlank) {l : Layout} (h : Flow cut chunks rest l.printer)
    {raw : Text}
    (hopens : rest = [] → ∀ c, raw.head? = some c → Cell.Opens cut (textOf chunks) c) :
    ∃ rest', Flow cut (chunks ++ Item.blockChunks raw) rest' (l.blocks o raw).printer := by
  fun_induction Layout.blocks o l raw generalizing chunks rest with
  | case1 l raw hnone =>
    rw [Item.blockChunks, hnone]
    exact flow_words ho h hopens
  | case2 l raw i n hsome hguard =>
    rw [Item.blockChunks, hsome]
    dsimp only
    rw [if_pos hguard]
    exact flow_words ho h hopens
  | case3 l raw i n hsome hguard l' =>
    rename_i ih
    rw [Item.blockChunks, hsome]
    dsimp only
    rw [if_neg hguard]
    rw [not_or] at hguard
    -- the words before the tag, the tag, and what follows it
    obtain ⟨rest₁, hwords⟩ : ∃ rest₁, Flow cut (chunks ++ Chunk.ofText (raw.take i)) rest₁
        (l.words o (raw.take i)).printer := by
      refine flow_words ho h fun hrest c hc => ?_
      rw [List.head?_take] at hc
      split at hc
      · cases hc
      · exact hopens hrest c hc
    obtain ⟨hhead, hlast⟩ := blockTag_spec (Text.search?_spec hsome)
    have htight : Text.Tight ((raw.drop i).take n) := by
      obtain ⟨t, ht⟩ := List.getLast?_eq_some_iff.mp hlast
      rw [ht]
      exact Text.tight_concat (by decide) t
    have hbrace : (Text.trimRight ((raw.drop i).take n)).head? = some '\x7b' := by
      rw [htight, List.head?_take, if_neg hguard.2, hhead]
    have htag := hwords.solid (prints_blockTag ho (l.words o (raw.take i)) _) hbrace
      fun _ => .inr (.inr (.inr (.inr (.inl rfl))))
    -- what follows stands behind a brace
    have hbehind : (textOf (chunks ++ Chunk.ofText (raw.take i) ++
        Chunk.solid ((raw.drop i).take n))).getLast? = some '\x7d' := by
      rw [textOf_append, textOf_solid, List.getLast?_append, hlast, Option.some_or]
    obtain ⟨rest₂, hrest⟩ := ih htag fun _ c _ => .inr (.inr (.inl hbehind))
    refine ⟨rest₂, ?_⟩
    rwa [List.append_assoc chunks, List.append_assoc chunks] at hrest

/-! ## Items -/

/-- Closing an element prints nothing. -/
theorem flow_pop {l : Layout} (h : Flow cut chunks rest l.printer) :
    Flow cut chunks rest l.pop.printer := by
  unfold pop
  split
  · exact h
  · exact h.of_eq rfl rfl rfl

/-- **A start tag flows**, cut at its splits. -/
theorem flow_onStart (ho : o.IndentsBlank) {l : Layout} (h : Flow cut chunks rest l.printer)
    {tag : StartTag} {more : Text} (hraw : tag.raw = '<' :: more) :
    ∃ rest', Flow (tag.withSplits o cut (textOf chunks)) (chunks ++ tag.chunks o) rest'
      (l.onStart o tag).printer := by
  -- whichever way the tag is printed, it is rendered at some depth and column
  have hprint : ∀ (p q : Printer), Flow cut chunks rest p →
      (∃ depth column, Printer.Prints p q (tag.render o depth column)) →
      ∃ rest', Flow (tag.withSplits o cut (textOf chunks)) (chunks ++ tag.chunks o) rest' q := by
    rintro p q hp ⟨depth, column, hprints⟩
    obtain ⟨w, hw, hwhole, howes⟩ := hprints.whole_eq
    refine ⟨_, hp.advance (StartTag.not_blank_render ho hraw depth column) hw hwhole
      (fun _ => howes) (hprints.neat hp.neat) (c := '<')
      (fun _ => .inr (.inr (.inr (.inl rfl)))) ?_⟩
    intro cells htypeset hleads
    exact StartTag.exists_typeset ho hraw htypeset hleads depth column
  unfold onStart
  dsimp only
  -- an element that ends where another of its name begins is taken off the stack first
  generalize hl' : (if (Element.isSelfTerminating tag.name &&
    l.stack.head?.map (·.name) == some tag.name) = true then l.pop else l) = l'
  have hpopped : Flow cut chunks rest l'.printer := by
    rw [← hl']
    split
    · exact flow_pop h
    · exact h
  obtain ⟨rest', hprinted⟩ : ∃ rest', Flow (tag.withSplits o cut (textOf chunks))
      (chunks ++ tag.chunks o) rest' (l'.print fun p =>
        if Element.isInline tag.name = true then printInlineStart o p tag
        else printBlockStart o p tag).printer := by
    refine hprint _ _ hpopped ?_
    rw [print]
    dsimp only
    split
    · exact prints_inlineStart ho _ tag
    · exact prints_blockStart ho _ tag
  refine ⟨rest', ?_⟩
  split
  · exact hprinted
  · exact hprinted.of_eq rfl rfl rfl

/-- An end tag is printed behind the solid part, whatever it ends. -/
theorem prints_onEnd (ho : o.IndentsBlank) (l : Layout) (raw name : Text) :
    Printer.Prints l.printer (l.onEnd o raw name).printer raw := by
  unfold onEnd
  split
  · rw [print]
    dsimp only
    split
    · exact Printer.prints_inline ho _ raw false true
    · exact Printer.prints_block ho _ raw
  · rename_i e rest depth hunwind
    dsimp only
    split
    · have hinline := Printer.prints_inline ho { l.printer with depth := depth } raw false true
      exact ⟨hinline.whole_eq, hinline.neat⟩
    · have hend := prints_end ho { l.printer with depth := depth } e
        (o.extraLiners.contains ('/' :: name)) raw
      exact ⟨hend.whole_eq, hend.neat⟩

/-- So is an element that is copied whole. -/
theorem prints_onVerbatim (ho : o.IndentsBlank) (l : Layout) (raw name : Text) :
    Printer.Prints l.printer (l.onVerbatim o raw name).printer raw := by
  rw [onVerbatim, print]
  dsimp only
  split
  · exact Printer.prints_inline ho _ raw false false
  · exact Printer.prints_block ho _ raw

/-- Markup that is copied as it stands begins with a bracket. -/
theorem flow_copied {p q : Printer} (h : Flow cut chunks rest p) {raw : Text}
    (hraw : raw.head? = some '<') (hprints : Printer.Prints p q raw) :
    ∃ rest', Flow cut (chunks ++ Chunk.solid raw) rest' q := by
  have hhead := Text.head?_trimRight (by decide) hraw
  exact ⟨_, h.solid hprints hhead fun _ => .inr (.inr (.inr (.inl rfl)))⟩

/-- White space may be put in between two items. -/
theorem opens_of_joins {done : List Item} (hdone : textOf chunks = Item.rawOf done) {raw : Text}
    (hjoins : (Item.text raw).Joins (Item.rawOf done).getLast?) {c : Char}
    (hc : raw.head? = some c) : Cell.Opens cut (textOf chunks) c := by
  rw [hdone]
  rcases hjoins with h | h | h
  · exact .inl (List.getLast?_eq_none_iff.mp h)
  · exact .inr (.inl h)
  · exact .inr (.inr (.inr (.inl (Option.some.inj (hc.symm.trans h)))))

/-- **One more item.** -/
theorem flow_step (ho : o.IndentsBlank) {done : List Item} {l : Layout}
    (h : Flow (Item.CutsOf o done) (Item.chunksOf o done) rest l.printer)
    (hdone : textOf (Item.chunksOf o done) = Item.rawOf done) {i : Item}
    (hjoins : i.Joins (Item.rawOf done).getLast?) (hformed : i.Formed) :
    ∃ rest', Flow (Item.CutsOf o (done ++ [i])) (Item.chunksOf o (done ++ [i])) rest'
      (l.step o i).printer := by
  rw [Item.chunksOf_concat]
  -- only start tags bring new cuts
  have hplain : (∀ tag, i ≠ .startTag tag) →
      (∃ rest', Flow (Item.CutsOf o done) (Item.chunksOf o done ++ i.chunks o) rest'
        (l.step o i).printer) →
      ∃ rest', Flow (Item.CutsOf o (done ++ [i])) (Item.chunksOf o done ++ i.chunks o) rest'
        (l.step o i).printer := by
    rintro hi ⟨rest', hflow⟩
    refine ⟨rest', hflow.congr fun t => ?_⟩
    rw [Item.cutsOf_concat]
    refine or_iff_left ?_
    rintro ⟨tag, rfl, -⟩
    exact hi tag rfl
  cases i with
  -- text flows word by word, or block by block around handlebars tags
  | text raw =>
    have hopens : ∀ c, raw.head? = some c →
        Cell.Opens (Item.CutsOf o done) (textOf (Item.chunksOf o done)) c :=
      fun c hc => opens_of_joins hdone hjoins hc
    refine hplain (by simp) ?_
    rw [step, onText, Item.chunks]
    split
    · exact flow_blocks ho h fun _ => hopens
    · exact flow_words ho h fun _ => hopens
  -- a start tag flows by its own words, with the splits of it as cuts
  | startTag tag =>
    obtain ⟨c, r, hraw, -⟩ := hformed
    obtain ⟨rest', hflow⟩ := flow_onStart ho h hraw
    refine ⟨rest', hflow.congr fun t => ?_⟩
    rw [Item.cutsOf_concat, StartTag.withSplits, hdone]
    simp
  | body raw name =>
    -- the text so far ends with a bracket, so there is no gap
    have hlast : (textOf (Item.chunksOf o done)).getLast? = some '>' := by
      rw [hdone]
      exact hjoins
    obtain rfl : rest = [] := by
      obtain ⟨cells, htypeset, -⟩ := h.typeset
      by_contra hne
      rw [htypeset.sets.textOf_eq, List.getLast?_append_of_ne_nil _ hne] at hlast
      have hblank := htypeset.sets.blank_rest.of_mem (List.mem_of_getLast? hlast)
      exact absurd hblank (by decide)
    exact hplain (by simp) ⟨_, h.glue raw fun c => .inr (.inl hlast)⟩
  -- everything else is copied
  | endTag raw name =>
    exact hplain (by simp) (flow_copied h hformed (prints_onEnd ho l raw name))
  | comment raw | template raw =>
    exact hplain (by simp)
      (flow_copied h hformed (Printer.prints_inline ho l.printer raw true false))
  | declaration raw =>
    exact hplain (by simp) (flow_copied h hformed (Printer.prints_block ho l.printer raw))
  | verbatim raw name =>
    exact hplain (by simp) (flow_copied h hformed (prints_onVerbatim ho l raw name))

/-- **Any number of items.** -/
theorem flow_run (ho : o.IndentsBlank) {items done : List Item} {l : Layout}
    (h : Flow (Item.CutsOf o done) (Item.chunksOf o done) rest l.printer)
    (hdone : textOf (Item.chunksOf o done) = Item.rawOf done)
    (hfollows : Item.Follows (Item.rawOf done).getLast? items) :
    ∃ rest', Flow (Item.CutsOf o (done ++ items)) (Item.chunksOf o (done ++ items)) rest'
      (items.foldl (step o) l).printer := by
  induction items generalizing done l rest with
  | nil => exact ⟨rest, by simpa using h⟩
  | cons i items ih =>
    obtain ⟨hjoins, hformed, hclosed, hmore⟩ := hfollows
    obtain ⟨rest', hstep⟩ := flow_step ho h hdone hjoins hformed
    rw [List.foldl_cons, ← List.singleton_append, ← List.append_assoc]
    cases items with
    | nil => exact ⟨rest', by simpa using hstep⟩
    | cons j items =>
      -- only the last item may be supplied with a bracket
      have hsupplied : i.supplied o = [] := by
        refine Item.supplied_eq_nil o fun hi => (hclosed hi).resolve_right ?_
        exact List.cons_ne_nil j items
      refine ih hstep ?_ ?_
      · rw [Item.chunksOf_concat, textOf_append, hdone, Item.textOf_chunks o hformed, hsupplied,
          List.append_nil, Item.rawOf_append, Item.rawOf_singleton]
      · rwa [Item.rawOf_append, Item.rawOf_singleton,
          List.getLast?_append_of_ne_nil _ hformed.raw_ne_nil]

end Layout

namespace Item

/-- What is supplied at the end of several items. -/
def suppliedTo (o : MarkupOptions) (items : List Item) : Text :=
  (items.getLast?.map (supplied o)).getD []

/-- The chunks of all items are the markup, with what is supplied to the last one. -/
theorem textOf_chunksOf_eq (o : MarkupOptions) {last : Option Char} {items : List Item}
    (h : Follows last items) : textOf (chunksOf o items) = rawOf items ++ suppliedTo o items := by
  induction items generalizing last with
  | nil => rfl
  | cons i items ih =>
    obtain ⟨-, hformed, hclosed, hmore⟩ := h
    have hcons : textOf (chunksOf o (i :: items)) =
        i.raw ++ i.supplied o ++ (rawOf items ++ suppliedTo o items) := by
      rw [← textOf_chunks o hformed, ← ih hmore, ← textOf_append]
      rfl
    -- only the last item can be without its end
    by_cases hlast : items = []
    · subst hlast
      rw [hcons]
      simp [rawOf, suppliedTo]
    · have hsupplied := supplied_eq_nil o fun hi => (hclosed hi).resolve_right hlast
      rw [hcons, hsupplied, List.append_nil, ← List.append_assoc, suppliedTo, suppliedTo,
        List.getLast?_cons_of_ne_nil hlast]
      rfl

/-- If anything is supplied, then a bracket to a start tag without one at the end. -/
theorem suppliedTo_cases (o : MarkupOptions) (items : List Item) :
    suppliedTo o items = [] ∨ (suppliedTo o items = ['>'] ∧
      ∃ tag, items.getLast? = some (.startTag tag) ∧ tag.raw.getLast? ≠ some '>') := by
  unfold suppliedTo
  cases hlast : items.getLast? with
  | none => exact .inl rfl
  | some i =>
    rw [Option.map_some, Option.getD_some]
    cases i with
    | startTag tag =>
      rw [supplied, StartTag.supplied]
      split
      · exact .inl rfl
      · rename_i hopen
        refine .inr ⟨rfl, tag, rfl, fun hend => hopen ?_⟩
        rw [Tag.endsWith_singleton.mpr hend, Bool.or_true]
    | _ => exact .inl rfl

/-- The chunks of all items are the markup, with the bracket that is supplied. -/
theorem textOf_chunksOf (o : MarkupOptions) {last : Option Char} {items : List Item}
    (h : Follows last items) :
    ∃ extra, textOf (chunksOf o items) = rawOf items ++ extra ∧
      (extra = [] ∨ extra = ['>']) :=
  ⟨suppliedTo o items, textOf_chunksOf_eq o h, (suppliedTo_cases o items).imp_right (·.1)⟩

end Item

/-- The layout of markup as a whole. -/
theorem Layout.flow_scan {o : MarkupOptions} (ho : o.IndentsBlank) (s : Text) :
    ∃ rest, Flow (Item.CutsOf o (Item.scan o s)) (Item.chunksOf o (Item.scan o s)) rest
      (Layout.run o (Item.scan o s)).printer := by
  have hstart : Flow (Item.CutsOf o []) (Item.chunksOf o []) [] ({} : Layout).printer := by
    refine ⟨(fun l hl => nomatch hl), [], ⟨.nil, Cell.allSound_nil _, ?_⟩, rfl, fun h => ?_⟩
    · intro t ht
      exact absurd ht (Item.cutsOf_nil o t)
    · exact absurd rfl h
  obtain ⟨rest, hrun⟩ := Layout.flow_run ho hstart rfl (Item.follows_scan o (.inl rfl))
  rw [List.nil_append] at hrun
  exact ⟨rest, hrun⟩

/-- **The formatter changes white space.** What it makes of markup is the cells of
the chunks, soundly typeset with white space at every cut, and maybe a line feed. -/
theorem formatMarkup_spec {o : MarkupOptions} (ho : o.IndentsBlank) {s out : Text}
    (h : formatMarkup o s = .ok out) :
    (s.Blank ∧ out = []) ∨ ∃ cells rest feed, feed.Blank ∧ out = Cell.printed cells ++ feed ∧
      Typeset (Item.CutsOf o (Item.scan o s)) (Item.chunksOf o (Item.scan o s)) cells rest := by
  unfold formatMarkup at h
  split at h
  · rename_i hblank
    exact .inl ⟨hblank, (Except.ok.inj h).symm⟩
  · split at h
    · cases h
    · obtain ⟨rest, hrun⟩ := Layout.flow_scan ho s
      obtain ⟨cells, htypeset, hprinted, -⟩ := hrun.typeset
      refine .inr ⟨cells, rest, if o.endWithNewline then ['\n'] else [], ?_, ?_, htypeset⟩
      · split
        · decide
        · exact Text.blank_nil
      · have hjoin := Printer.join_finish hrun.neat
        rw [← hprinted] at hjoin
        rw [← Except.ok.inj h, ← hjoin]
        rfl

end TemplateTidy
