import TemplateTidy.Proofs.Markup.Flow
import TemplateTidy.Proofs.Markup.Legible

/-!
# Markup that stays as it is laid out

Markup is *steady* under some options if each of its strokes is printed in such a way
that it is read back and printed again as it was: items and start tags are closed and
legible, and no start tag that looks different from one column to the next goes to the
next line from where no white space stands. Where text is laid out around double braces,
no word may hold them.

The run over the markup is taken along with the run over what it prints. Between two
strokes both layouts are the same but for the white space that is noted, and the second
notes the pad that the first has put there.

Main results: `Stroke.exists_replays` (one stroke), `Stroke.exists_retraces` (a whole run),
`formatMarkup_steady`.
-/

namespace TemplateTidy

/-! ## Items and elements that are read as themselves -/

namespace Item

/-- The item is read as itself where a space follows, and so whatever follows. -/
def isClosed (o : MarkupOptions) : Item → Bool
  | startTag tag => tag.isClosed o && !(tag.verbatim && !tag.void) && !tag.keepsContent o
  | i => decide (markup? o (i.raw ++ [' ']) = some [i])

/-- An item that is read as itself is the first one of the scan. -/
theorem scan_of_markup? {o : MarkupOptions} {i : Item}
    (h : ∀ t, markup? o (i.raw ++ t) = some [i]) (t : Text) :
    scan o (i.raw ++ t) = i :: scan o t :=
  scan_markup (h t) (by simp [rawOf])

/-- A start tag that is an item by itself. -/
theorem scan_startTag {o : MarkupOptions} {tag : StartTag} (h : tag.Reads o)
    (hwhole : (tag.verbatim && !tag.void) = false) (hcontent : tag.keepsContent o = false)
    (t : Text) : scan o (tag.raw ++ t) = .startTag tag :: scan o t := by
  refine scan_of_markup? (i := .startTag tag) (fun t => ?_) t
  show markup? o (tag.raw ++ t) = some [.startTag tag]
  rw [h.markup? hwhole, hcontent]
  rfl

end Item

namespace StartTag

/-- The content of the tag's element ends where the end tag begins, and that is closed. -/
def endsAt (o : MarkupOptions) (tag : StartTag) (content close : Text) : Bool :=
  decide (Item.bodyLength tag.name (content ++ close ++ [' ']) = content.length) &&
    decide (Item.markup? o (close ++ [' ']) = some [.endTag close tag.name])

/-- The end tag is found whatever follows it. -/
theorem bodyLength_of_endsAt {o : MarkupOptions} {tag : StartTag} (hname : '>' ∉ tag.name)
    {content close : Text} (h : tag.endsAt o content close = true) (t : Text) :
    Item.bodyLength tag.name (content ++ (close ++ t)) = content.length := by
  rw [endsAt, Bool.and_eq_true, decide_eq_true_eq, decide_eq_true_eq] at h
  obtain ⟨hlength, hclosed⟩ := h
  obtain ⟨-, u, hraw⟩ := Item.exists_bracket (i := .endTag close tag.name) hclosed
  have hclose : close = '<' :: u ++ ['>'] := hraw
  have hcut : ∀ t, content ++ (close ++ t) = content ++ '<' :: u ++ '>' :: t := by
    intro t
    rw [hclose]
    simp
  rw [List.append_assoc, hcut] at hlength
  rw [hcut]
  unfold Item.bodyLength at hlength ⊢
  cases hsearch : Text.search? (Html.endTagOf tag.name) (content ++ '<' :: u ++ ['>', ' ']) with
  | none =>
    rw [hsearch] at hlength
    simp at hlength
  | some found =>
    obtain ⟨j, n⟩ := found
    rw [hsearch] at hlength
    obtain rfl : j = content.length := hlength
    -- the recogniser of the end tag does not look beyond a bracket
    have hcurbed : Recogniser.Curbed (Html.endTagOf tag.name) :=
      Recogniser.curbed_endTagOf fun p hp => sameLetter_bracket fun heq => hname (heq ▸ hp)
    have hfound := hcurbed.searchFrom hsearch (by simp) t
    rw [Text.search?, hfound]

end StartTag

/-- **An element whose content is not read as markup is read as itself.** -/
theorem Item.scan_element {o : MarkupOptions} {tag : StartTag} (h : tag.Reads o)
    (hverbatim : tag.verbatim = false) (hcontent : tag.keepsContent o = true) {content close : Text}
    (hends : tag.endsAt o content close = true) (t : Text) :
    Item.scan o (tag.raw ++ content ++ close ++ t) =
      Stroke.elementItems tag content close ++ Item.scan o t := by
  have hname : '>' ∉ tag.name := by
    rw [← h.tag []]
    exact bracket_notMem_name o _ _
  have hbody := StartTag.bodyLength_of_endsAt hname hends t
  rw [StartTag.endsAt, Bool.and_eq_true, decide_eq_true_eq, decide_eq_true_eq] at hends
  have hend : scan o (close ++ t) = .endTag close tag.name :: scan o t :=
    scan_of_markup? (markup?_closed (i := .endTag close tag.name) hends.2) t
  have hmarkup := h.markup? (by rw [hverbatim, Bool.false_and]) (content ++ (close ++ t))
  rw [hcontent, if_pos rfl, hbody, List.take_left] at hmarkup
  have htext : tag.raw ++ content ++ close ++ t = tag.raw ++ content ++ (close ++ t) := by
    simp
  rw [← List.append_assoc] at hmarkup
  -- one round reads the start tag and its content, the next one the end tag
  rw [htext, scan_markup hmarkup, hend, Stroke.elementItems]
  · cases content with
    | nil => rfl
    | cons c content => rfl
  · cases content with
    | nil => simp [rawOf, Item.raw]
    | cons c content => simp [rawOf, Item.raw]

/-! ## Steady strokes -/

namespace StartTag

/-- The tag is placed so that it is placed there again. -/
def isPlaced (o : MarkupOptions) (l : Layout) (tag : StartTag) : Bool :=
  !Element.isInline tag.name || l.printer.space || tag.isEven o || !l.wrapsStart o tag

/-- A tag that is read as itself stands between brackets. -/
theorem Reads.exists_bracket {o : MarkupOptions} {tag : StartTag} (h : tag.Reads o) :
    ∃ u, tag.raw = '<' :: u ++ ['>'] := by
  obtain ⟨c, rest, hraw, -⟩ := h.head
  have hclosed := Item.closedAt_tagLength o (tag.raw ++ [' '])
  rw [h.length] at hclosed
  rcases hclosed with hlast | hend
  · rw [List.take_left, hraw, List.getLast?_cons_cons] at hlast
    obtain ⟨u, hu⟩ := List.getLast?_eq_some_iff.mp hlast
    exact ⟨u, by rw [hraw, hu]; rfl⟩
  · rw [List.drop_left] at hend
    cases hend

end StartTag

namespace Stroke

/-- The stroke is printed by the layout so that it is read back and printed so again. -/
def isSteady (o : MarkupOptions) (l : Layout) : Stroke → Bool
  | gap _ => true
  | word s => isBraceless o s
  | item (.startTag tag) =>
    (Item.startTag tag).isClosed o && tag.isLegible o && tag.isPlaced o l
  | item i => i.isClosed o
  | element tag content close =>
    tag.isClosed o && !tag.verbatim && tag.keepsContent o && tag.isLegible o && tag.isPlaced o l &&
      tag.endsAt o content close &&
      (!Element.isInline tag.name || !l.wrapsEnd o tag content close)

/-- All strokes are steady where the run comes to them. -/
def areSteady (o : MarkupOptions) : Layout → List Stroke → Bool
  | _, [] => true
  | l, x :: strokes => x.isSteady o l && areSteady o (x.step o l) strokes

/-- A stroke that is printed for another one is of the same kind. -/
inductive Kin : Stroke → Stroke → Prop
  | word (s : Text) : Kin (word s) (word s)
  | item (i : Item) {i' : Item} (h : i'.isMarkup = true) : Kin (item i) (item i')
  | element (tag tag' : StartTag) (content close : Text) :
    Kin (element tag content close) (element tag' content close)

/-- A text between brackets is tight, and not blank. -/
theorem tight_bracket {s u : Text} (h : s = '<' :: u ++ ['>']) : ¬ s.Blank ∧ Text.Tight s := by
  subst h
  refine ⟨fun hblank => ?_, Text.tight_concat (by decide) _⟩
  exact absurd (Text.blank_append.mp hblank).2 (by decide)

/-- **A start tag is printed, read back and printed again.** -/
theorem exists_replays_onStart {o : MarkupOptions} {l : Layout} (hl : l.Poised)
    (ho : o.IndentsInLine) {tag : StartTag} (hreads : tag.Reads o)
    (hlegible : tag.isLegible o = true) (hplaced : tag.isPlaced o l = true) :
    ∃ q, StartTag.Reads o { tag with raw := q } ∧
      Layout.Replays l (l.onStart o tag) (fun l => l.onStart o { tag with raw := q }) q := by
  have heven : Element.isInline tag.name = true → l.printer.space = true ∨
      (∀ depth, Printer.EvenStart (tag.render o depth)) ∨ l.wrapsStart o tag = false := by
    intro hinline
    simp only [StartTag.isPlaced, hinline, Bool.not_true, Bool.false_or, Bool.or_eq_true,
      Bool.not_eq_true'] at hplaced
    rcases hplaced with (hspace | heven) | hfits
    · exact .inl hspace
    · exact .inr (.inl fun depth => StartTag.evenStart_render heven depth)
    · exact .inr (.inr hfits)
  obtain ⟨depth, column, hreplays⟩ := Layout.replays_onStart hl ho tag heven
  obtain ⟨hback, halike⟩ := StartTag.reads_render ho.blank hreads hlegible depth column
  exact ⟨_, hback, hreplays _ halike⟩

/-- An item that is no start tag is printed as it stands. -/
theorem replays_step {o : MarkupOptions} {l : Layout} (hl : l.Poised) (ho : o.IndentsInLine)
    {i : Item} (hmarkup : i.isMarkup = true) (htag : ∀ tag, i ≠ .startTag tag) :
    Layout.Replays l (l.step o i) (fun l => l.step o i) i.raw := by
  cases i with
  | text raw | body raw name => cases hmarkup
  | startTag tag => exact absurd rfl (htag tag)
  | endTag raw name => exact Layout.replays_onEnd hl ho raw name
  | comment raw | template raw =>
    exact Layout.replays_print (f := fun p => p.inline o raw true false)
      (Printer.replays_inline hl.printer ho raw true false)
  | declaration raw =>
    exact Layout.replays_print (f := fun p => p.block o raw)
      (Printer.replays_block hl.printer ho raw)
  | verbatim raw name =>
    exact Layout.replays_print
      (f := fun p => if Element.isInline name then p.inline o raw false false else p.block o raw)
      (Printer.replays_either hl.printer ho raw (Element.isInline name) false)

/-- **A steady stroke is printed, read back and printed again.** -/
theorem exists_replays {o : MarkupOptions} {l : Layout} (hl : l.Poised) (ho : o.IndentsInLine)
    {x : Stroke} (hx : x.isSteady o l = true) (hgap : ∀ g, x ≠ gap g)
    (hword : ∀ s, x = word s → (∀ c ∈ s, isBlank c = false) ∧ s ≠ [] ∧ Item.Calm o s) :
    ∃ x', Layout.Replays l (x.step o l) (fun l => x'.step o l) x'.text ∧
      (x.step o l).printer.Inked ∧ x'.Sealed o ∧ Kin x x' := by
  cases x with
  | gap g => exact absurd rfl (hgap g)
  | word s =>
    obtain ⟨hletters, hne, hcalm⟩ := hword s rfl
    have hreplays := Layout.replays_print (f := fun p => p.inline o s false true)
      (Printer.replays_inline hl.printer ho s false true)
    refine ⟨word s, hreplays, ?_, ⟨hcalm, hx⟩, .word s⟩
    -- a word ends in a letter, so the line does
    obtain ⟨t, c, hs⟩ := (List.eq_nil_or_concat s).resolve_left hne
    rw [List.concat_eq_append] at hs
    have hc : isBlank c = false := hletters c (by simp [hs])
    refine hreplays.inked (fun hblank => ?_) (hs ▸ Text.tight_concat hc t)
    have hlast : isBlank c = true := hblank.of_mem (by simp [hs])
    rw [hc] at hlast
    cases hlast
  | item i =>
    by_cases htag : ∃ tag, i = .startTag tag
    · -- of a start tag what is printed is read back, not the tag of the source
      obtain ⟨tag, rfl⟩ := htag
      simp only [isSteady, Item.isClosed, Bool.and_eq_true, Bool.not_eq_true'] at hx
      obtain ⟨⟨⟨⟨hclosed, hwhole⟩, hcontent⟩, hlegible⟩, hplaced⟩ := hx
      obtain ⟨q, hback, hreplays⟩ :=
        exists_replays_onStart hl ho (StartTag.reads_of_isClosed hclosed) hlegible hplaced
      obtain ⟨u, hu⟩ := hback.exists_bracket
      obtain ⟨hblank, htight⟩ := tight_bracket hu
      exact ⟨item (.startTag { tag with raw := q }), hreplays, hreplays.inked hblank htight,
        Item.scan_startTag hback hwhole hcontent, .item _ rfl⟩
    · -- any other item is copied
      have hclosed : Item.markup? o (i.raw ++ [' ']) = some [i] := by
        cases i with
        | startTag tag => exact absurd ⟨tag, rfl⟩ htag
        | _ => exact of_decide_eq_true hx
      obtain ⟨hmarkup, u, hu⟩ := Item.exists_bracket hclosed
      obtain ⟨hblank, htight⟩ := tight_bracket hu
      have hreplays := replays_step hl ho hmarkup fun tag heq => htag ⟨tag, heq⟩
      exact ⟨item i, hreplays, hreplays.inked hblank htight,
        Item.scan_of_markup? (Item.markup?_closed hclosed), .item i hmarkup⟩
  -- of an element the start tag is rendered, and the rest copied
  | element tag content close =>
    simp only [isSteady, Bool.and_eq_true, Bool.or_eq_true, Bool.not_eq_true'] at hx
    obtain ⟨⟨⟨⟨⟨⟨hclosed, hverbatim⟩, hcontent⟩, hlegible⟩, hplaced⟩, hends⟩, hfits⟩ := hx
    obtain ⟨q, hback, hstart⟩ :=
      exists_replays_onStart hl ho (StartTag.reads_of_isClosed hclosed) hlegible hplaced
    obtain ⟨u, hu⟩ := hback.exists_bracket
    obtain ⟨hblank, htight⟩ := tight_bracket hu
    obtain ⟨-, v, hv⟩ : _ ∧ ∃ v, close = '<' :: v ++ ['>'] :=
      Item.exists_bracket (i := .endTag close tag.name) (by
        rw [StartTag.endsAt, Bool.and_eq_true, decide_eq_true_eq, decide_eq_true_eq] at hends
        exact hends.2)
    obtain ⟨hblank', htight'⟩ := tight_bracket hv
    have hvoid : tag.void = false := by
      rw [StartTag.keepsContent, Bool.and_eq_true, Bool.not_eq_true'] at hcontent
      exact hcontent.1
    have hreplays : Layout.Replays l (l.onElement o tag content close)
        (fun l => l.onElement o { tag with raw := q } content close) (q ++ content ++ close) :=
      hstart.element rfl hvoid hfits hblank htight hblank' htight'
    refine ⟨element { tag with raw := q } content close, hreplays, hreplays.inked ?_ ?_,
      Item.scan_element hback hverbatim hcontent hends, .element ..⟩
    · exact fun h => hblank' (Text.blank_append.mp h).2
    · exact htight'.append (by simp [hv])

/-! ## Whole runs -/

theorem fresh_noteGap {p : Printer} {g : Text} : (p.noteGap g).Fresh ↔ p.Fresh :=
  ⟨fun h => ⟨h.lines, h.line, h.depth⟩, fun h => ⟨h.lines, h.line, h.depth⟩⟩

/-- The white space before a stroke is a gap, if there is any. -/
def padStrokes (pad : Text) : List Stroke :=
  if pad = [] then [] else [gap pad]

/-- The gap that stands for white space is that white space. -/
@[simp] theorem textOf_padStrokes (pad : Text) : textOf (padStrokes pad) = pad := by
  unfold padStrokes
  split
  · rename_i h
    rw [h]
    rfl
  · simp [textOf, text]

/-- Printing the gap notes the white space. -/
theorem foldl_padStrokes (o : MarkupOptions) (l : Layout) (pad : Text) :
    (padStrokes pad).foldl (step o) (l.noting []) = l.noting pad := by
  unfold padStrokes
  split
  · rename_i h
    rw [h]
    rfl
  · rename_i h
    have hnoted := l.printer.noteGap_noting_nil h
    simp only [List.foldl_cons, List.foldl_nil, step, Layout.print, Layout.noting, hnoted]

/-- A gap may be put in front unless one is there. -/
theorem divided_padStrokes {pad : Text} (hpad : pad.Blank) {strokes : List Stroke}
    (h : Divided strokes) (hgap : ∀ g, strokes.head? ≠ some (gap g)) :
    Divided (padStrokes pad ++ strokes) := by
  unfold padStrokes
  split
  · exact h
  · rename_i hne
    exact ⟨hpad, hne, hgap, h⟩

/-- What is left behind a stroke is divided too. -/
theorem Divided.tail {x : Stroke} {strokes : List Stroke} (h : Divided (x :: strokes)) :
    Divided strokes := by
  cases x with
  | gap s | word s => exact h.2.2.2
  | item i => exact h.2
  | element tag content close => exact h

/-- A stroke may be replaced by one of its kind, if no word comes to stand behind a word. -/
theorem divided_of_kin {x x' : Stroke} (h : Kin x x') {strokes strokes' : List Stroke}
    (hx : Divided (x :: strokes)) (hrest : Divided strokes')
    (hword : (∃ s, x = word s) → ∀ t, strokes'.head? ≠ some (word t)) :
    Divided (x' :: strokes') := by
  cases h with
  | word s => exact ⟨hx.1, hx.2.1, hword ⟨s, rfl⟩, hrest⟩
  | item i hmarkup => exact ⟨hmarkup, hrest⟩
  | element tag tag' content close => exact hrest

/-- White space is read as itself. -/
theorem sealed_padStrokes (o : MarkupOptions) (pad : Text) : ∀ y ∈ padStrokes pad, y.Sealed o := by
  intro y hy
  unfold padStrokes at hy
  split at hy
  · cases hy
  · rw [List.mem_singleton.mp hy]
    trivial

/-- What is no gap comes first only if no white space is before it. -/
theorem head_padStrokes {pad : Text} {x y : Stroke} {strokes : List Stroke}
    (h : (padStrokes pad ++ x :: strokes).head? = some y) (hy : ∀ g, y ≠ gap g) :
    pad = [] ∧ x = y := by
  unfold padStrokes at h
  split at h
  · rename_i hnil
    exact ⟨hnil, Option.some.inj h⟩
  · exact absurd (Option.some.inj h).symm (hy pad)

/-- A run over some strokes prints the strokes `ys`, and printing these comes to the same.
`tail` is what may stand behind them. -/
structure Retraces (o : MarkupOptions) (tail : List Stroke) (l : Layout)
    (strokes ys : List Stroke) : Prop where
  whole : (strokes.foldl (step o) l).printer.whole = l.printer.whole ++ textOf ys
  again : ys.foldl (step o) (l.noting []) = (strokes.foldl (step o) l).noting []
  divided : Divided (ys ++ tail)
  areSealed : ∀ y ∈ ys, y.Sealed o
  -- a word is not put behind a word: it comes first only where one did, with no space noted
  word_first : ∀ s, (ys ++ tail).head? = some (word s) → l.printer.Fresh ∨
    (l.printer.space = false ∧ ∃ t, strokes.head? = some (word t))
  no_gap_first : l.printer.Fresh → ∀ g, ys.head? ≠ some (gap g)
  inked_or : (strokes.foldl (step o) l).printer.Inked ∨
    (l.printer.Fresh ∧ ∀ x ∈ strokes, ∃ g, x = gap g)

section

variable {o : MarkupOptions} {tail strokes ys : List Stroke} {l : Layout}

/-- Where nothing is printed there is nothing to retrace. -/
theorem Retraces.nil (htail : Divided tail) (hword : ∀ s, tail.head? ≠ some (word s))
    (hl : l.Poised) : Retraces o tail l [] [] where
  whole := by simp
  again := rfl
  divided := htail
  areSealed _ hy := nomatch hy
  word_first s hs := absurd hs (hword s)
  no_gap_first _ _ hg := nomatch hg
  inked_or := by
    rcases hl with ⟨hfresh, -⟩ | hinked
    · exact .inr ⟨hfresh, (fun _ hx => nomatch hx)⟩
    · exact .inl hinked

/-- White space is noted, and the notes are not part of what is compared. -/
theorem Retraces.gap {g : Text} (h : Retraces o tail (step o l (gap g)) strokes ys) :
    Retraces o tail l (gap g :: strokes) ys where
  whole := h.whole
  again := h.again
  divided := h.divided
  areSealed := h.areSealed
  word_first s hs := by
    rcases h.word_first s hs with hfresh | ⟨hspace, -⟩
    · exact .inl (fresh_noteGap.mp hfresh)
    · cases hspace
  no_gap_first hfresh := h.no_gap_first (fresh_noteGap.mpr hfresh)
  inked_or := by
    refine h.inked_or.imp_right fun ⟨hfresh, hgaps⟩ => ⟨fresh_noteGap.mp hfresh, ?_⟩
    exact List.forall_mem_cons.mpr ⟨⟨g, rfl⟩, hgaps⟩

/-- A stroke that is printed behind a pad of white space comes back as that pad, as a gap,
and the stroke that it is read as. -/
theorem Retraces.cons (hl : l.Poised) {x x' : Stroke}
    (hreplays : Layout.Replays l (x.step o l) (fun l => x'.step o l) x'.text)
    (hinked : (x.step o l).printer.Inked) (hx' : x'.Sealed o) (hkin : Kin x x')
    (hdivided : Divided (x :: strokes)) (h : Retraces o tail (x.step o l) strokes ys) :
    ∃ pad, Retraces o tail l (x :: strokes) (padStrokes pad ++ x' :: ys) := by
  obtain ⟨pad, hpad, hwhole, hagain, hspace, hstart⟩ := hreplays.exists_pad
  have hstill : (step o l x).noting [] = step o l x := by
    rw [Layout.noting, Layout.print, hreplays.still.noting_nil]
  have hfresh : ¬ (step o l x).printer.Fresh := fun h => h.not_inked hinked
  -- two words come back with white space between them, as they had before
  have hnext : (∃ s, x = word s) → ∀ t, (ys ++ tail).head? ≠ some (word t) := by
    rintro ⟨s, rfl⟩ t ht
    obtain ⟨-, u, hu⟩ := (h.word_first t ht).resolve_left hfresh
    exact hdivided.2.2.1 u hu
  have hnogap : ∀ strokes g, (x' :: strokes).head? ≠ some (Stroke.gap g) := by
    intro strokes g hg
    cases hkin <;> cases hg
  refine ⟨pad, ?_, ?_, ?_, ?_, fun s hs => ?_, fun hfresh => ?_, ?_⟩
  · rw [List.foldl_cons, h.whole, hwhole, textOf_append, textOf_padStrokes, textOf_cons]
    simp only [List.append_assoc]
  · have hback : step o (l.noting pad) x' = step o l x := hagain
    rw [List.foldl_append, foldl_padStrokes, List.foldl_cons, List.foldl_cons, hback, ← h.again,
      hstill]
  · rw [List.append_assoc, List.cons_append]
    exact divided_padStrokes hpad (divided_of_kin hkin hdivided h.divided hnext) (hnogap _)
  · rw [List.forall_mem_append, List.forall_mem_cons]
    exact ⟨sealed_padStrokes o pad, hx', h.areSealed⟩
  · rw [List.append_assoc, List.cons_append] at hs
    have hother : ∀ g, word s ≠ Stroke.gap g := by
      intro g hg
      cases hg
    obtain ⟨hnil, rfl⟩ := head_padStrokes hs hother
    refine hl.imp (·.1) fun hline => ⟨?_, ?_⟩
    · -- a space that has been noted would have been printed
      exact Bool.eq_false_iff.mpr fun hnoted => hspace hline hnoted hnil
    · cases hkin
      exact ⟨s, rfl⟩
  · rw [hstart hfresh]
    exact hnogap ys
  · exact .inl (h.inked_or.resolve_right fun h => hfresh h.1)

/-- **A run over steady strokes can be retraced.** -/
theorem exists_retraces (ho : o.IndentsInLine) (htail : Divided tail)
    (htail' : ∀ s, tail.head? ≠ some (word s)) (hl : l.Poised) (hdivided : Divided strokes)
    (hsteady : areSteady o l strokes = true) (hcalm : ∀ s, word s ∈ strokes → Item.Calm o s) :
    ∃ ys, Retraces o tail l strokes ys := by
  induction strokes generalizing l with
  | nil => exact ⟨[], .nil htail htail' hl⟩
  | cons x strokes ih =>
    rw [areSteady, Bool.and_eq_true] at hsteady
    obtain ⟨hx, hrest⟩ := hsteady
    have hcalm' : ∀ s, word s ∈ strokes → Item.Calm o s :=
      fun s hs => hcalm s (List.mem_cons_of_mem _ hs)
    by_cases hgap : ∃ g, x = Stroke.gap g
    · -- a gap is noted and prints nothing: it comes back with the stroke behind it
      obtain ⟨g, rfl⟩ := hgap
      have hnoted : (step o l (Stroke.gap g)).Poised :=
        hl.imp_left fun h => ⟨fresh_noteGap.mpr h.1, h.2⟩
      obtain ⟨ys, hys⟩ := ih hnoted hdivided.tail hrest hcalm'
      exact ⟨ys, hys.gap⟩
    · have hword : ∀ s, x = word s → (∀ c ∈ s, isBlank c = false) ∧ s ≠ [] ∧ Item.Calm o s := by
        rintro s rfl
        exact ⟨hdivided.1, hdivided.2.1, hcalm s (List.mem_cons_self ..)⟩
      obtain ⟨x', hreplays, hinked, hx', hkin⟩ :=
        exists_replays hl ho hx (fun g hg => hgap ⟨g, hg⟩) hword
      obtain ⟨ys, hys⟩ := ih (.inr hinked) hdivided.tail hrest hcalm'
      obtain ⟨pad, hpad⟩ := hys.cons hl hreplays hinked hx' hkin hdivided
      exact ⟨_, hpad⟩

end

/-! ## The strokes of markup -/

/-- The strokes of chunks have their text. -/
theorem textOf_ofChunk (chunks : List Chunk) :
    textOf (chunks.map ofChunk) = Chunk.textOf chunks := by
  induction chunks with
  | nil => rfl
  | cons x chunks ih =>
    rw [List.map_cons, textOf_cons, ih, Chunk.textOf_cons]
    cases x <;> rfl

/-- **The strokes of items have the text of the items.** -/
theorem textOf_strokes (o : MarkupOptions) (its : List Item) :
    textOf (strokes o its) = Item.rawOf its := by
  fun_induction strokes o its with
  | case1 => rfl
  | case2 raw rest ih =>
    rw [textOf_append, ih, textOf_ofChunk, Chunk.textOf_ofText]
    rfl
  -- three items in one stroke
  | case3 tag content name close rest ih =>
    rw [textOf_cons, ih]
    simp [Item.rawOf, text, Item.raw]
  | case4 tag content name close name' rest hname ih =>
    rw [textOf_cons, textOf_cons, textOf_cons, ih]
    simp [Item.rawOf, text, Item.raw]
  -- two items in one stroke
  | case5 tag close name rest hkeeps ih =>
    rw [textOf_cons, ih]
    simp [Item.rawOf, text, Item.raw]
  | case6 tag close name rest hkeeps ih =>
    rw [textOf_cons, textOf_cons, ih]
    simp [Item.rawOf, text, Item.raw]
  | case7 i rest htext hbody hempty ih =>
    rw [textOf_cons, ih]
    rfl

/-- Strokes that do not begin with a gap do not begin with white space. -/
theorem isBlank_head_textOf {o : MarkupOptions} {strokes : List Stroke} (h : Divided strokes)
    (hsealed : ∀ x ∈ strokes, x.Sealed o) (hgap : ∀ g, strokes.head? ≠ some (gap g)) {c : Char}
    (hc : (textOf strokes).head? = some c) : isBlank c = false := by
  cases strokes with
  | nil => cases hc
  | cons x strokes =>
    have hx := head_of_sealed (hsealed x (List.mem_cons_self ..))
    have hbracket : x.text.head? = some '<' → isBlank c = false := by
      intro hhead
      obtain ⟨t, ht⟩ := List.head?_eq_some_iff.mp hhead
      rw [textOf_cons, ht] at hc
      rw [← Option.some.inj hc]
      decide
    cases x with
    | gap g => exact absurd rfl (hgap g)
    | word s =>
      obtain ⟨hletters, hne, -⟩ := h
      obtain ⟨d, s, rfl⟩ := List.exists_cons_of_ne_nil hne
      obtain rfl : d = c := Option.some.inj hc
      exact hletters d (List.mem_cons_self ..)
    | item i => exact hbracket (hx.1 i rfl h.1)
    | element tag content close => exact hbracket (hx.2 tag content close rfl)

/-- Gaps are white space. -/
theorem blank_textOf {strokes : List Stroke} (h : Divided strokes)
    (hgaps : ∀ x ∈ strokes, ∃ g, x = gap g) : (textOf strokes).Blank := by
  induction strokes with
  | nil => exact Text.blank_nil
  | cons x strokes ih =>
    obtain ⟨⟨g, rfl⟩, hrest⟩ := List.forall_mem_cons.mp hgaps
    exact Text.blank_append.mpr ⟨h.1, ih h.tail hrest⟩

/-- The strokes of markup. -/
def ofMarkup (o : MarkupOptions) (s : Text) : List Stroke :=
  strokes o (Item.scan o s)

/-- Each stroke is steady under some layout that the run goes through. -/
theorem exists_isSteady_of_mem {o : MarkupOptions} {strokes : List Stroke} {l : Layout}
    (h : areSteady o l strokes = true) {x : Stroke} (hx : x ∈ strokes) :
    ∃ l', x.isSteady o l' = true := by
  induction strokes generalizing l with
  | nil => cases hx
  | cons y strokes ih =>
    rw [areSteady, Bool.and_eq_true] at h
    rcases List.mem_cons.mp hx with rfl | hx
    · exact ⟨l, h.1⟩
    · exact ih h.2 hx

/-- Items that are steady are markup. -/
theorem isMarkup_of_isSteady {o : MarkupOptions} {l : Layout} {i : Item}
    (h : (item i).isSteady o l = true) : i.isMarkup = true := by
  cases i with
  | text raw => exact (Item.exists_bracket (of_decide_eq_true h)).1
  | body raw name => exact (Item.exists_bracket (of_decide_eq_true h)).1
  | _ => rfl

end Stroke

/-- The markup is laid out so that it stays as it is. -/
def isSteady (o : MarkupOptions) (s : Text) : Bool :=
  Stroke.areSteady o {} (Stroke.ofMarkup o s)

/-- The end of the markup depends on the lines and the line in work only. -/
theorem finish_congr {p q : Printer} (hlines : p.lines = q.lines) (hline : p.line = q.line) :
    p.finish = q.finish := by
  unfold Printer.finish Printer.newline Printer.hasContent
  rw [hlines, hline]

/-- What is printed of steady markup are strokes that print the same again. -/
theorem exists_strokes_of_isSteady {o : MarkupOptions} (ho : o.IndentsInLine) {s : Text}
    (hs : ¬ s.Blank) (hsteady : isSteady o s = true) {tail : List Stroke}
    (htail : Stroke.Divided tail) (htail' : ∀ w, tail.head? ≠ some (.word w)) :
    ∃ ys, Text.join ['\n'] (layoutLines o s) = Stroke.textOf ys ∧ ¬ (Stroke.textOf ys).Blank ∧
      (∀ g, ys.head? ≠ some (.gap g)) ∧ Stroke.Divided (ys ++ tail) ∧ (∀ y ∈ ys, y.Sealed o) ∧
      ys.foldl (Stroke.step o) {} = (Layout.run o (Item.scan o s)).noting [] := by
  -- the strokes of the markup, and the run over them
  have hdivided : Stroke.Divided (Stroke.ofMarkup o s) := by
    refine Stroke.divided_strokes (Item.apart_scan o s) fun i hi => ?_
    obtain ⟨l, hi⟩ := Stroke.exists_isSteady_of_mem hsteady hi
    exact Stroke.isMarkup_of_isSteady hi
  have hcalm : ∀ w, .word w ∈ Stroke.ofMarkup o s → Item.Calm o w :=
    fun w hw => Stroke.calm_of_mem_strokes (fun raw hraw => Item.calm_of_mem_scan hraw) hw
  have hrun : Layout.run o (Item.scan o s) = (Stroke.ofMarkup o s).foldl (Stroke.step o) {} := by
    refine Stroke.foldl_strokes (fun w hw => ?_) _
    obtain ⟨l, hw⟩ := Stroke.exists_isSteady_of_mem hsteady hw
    exact hw
  have hfresh : ({} : Layout).printer.Fresh := ⟨rfl, rfl, rfl⟩
  have hpoised : ({} : Layout).Poised := .inl ⟨hfresh, rfl⟩
  -- the strokes that the run prints
  obtain ⟨ys, hys⟩ := Stroke.exists_retraces ho htail htail' hpoised hdivided hsteady hcalm
  -- something is printed, since not all of the markup is white space
  have hinked : (Layout.run o (Item.scan o s)).printer.Inked := by
    rw [hrun]
    refine hys.inked_or.resolve_right fun hnone => hs ?_
    rw [← Item.rawOf_scan o s, ← Stroke.textOf_strokes o]
    exact Stroke.blank_textOf hdivided hnone.2
  have hsolid := hinked.solid_eq
  have hblank := hinked.not_blank_whole
  obtain ⟨rest, hflow⟩ := Layout.flow_scan ho.blank s
  have hprinted : (Layout.run o (Item.scan o s)).printer.whole = Stroke.textOf ys := by
    rw [hrun]
    exact hys.whole
  refine ⟨ys, ?_, ?_, hys.no_gap_first hfresh, hys.divided, hys.areSealed, ?_⟩
  · rw [layoutLines, Printer.join_finish hflow.neat, hsolid, hprinted]
  · rwa [← hprinted]
  · rw [hrun]
    exact hys.again

/-- **Steady markup is laid out once and for all**, and then begins with no white space. -/
theorem formatMarkup_steady {o : MarkupOptions} (ho : o.IndentsInLine) {s out : Text}
    (hsteady : isSteady o s = true) (h : formatMarkup o s = .ok out) :
    formatMarkup o out = .ok out ∧ ∀ c, out.head? = some c → isBlank c = false := by
  by_cases hs : Text.allBlank s = true
  · rw [formatMarkup, if_pos hs] at h
    obtain rfl := Except.ok.inj h
    exact ⟨rfl, (fun _ h => nomatch h)⟩
  · rw [formatMarkup, if_neg hs] at h
    split at h
    · cases h
    · rename_i hfault
      -- a line feed at the end is a gap behind the last stroke
      let tail : List Stroke := if o.endWithNewline then [.gap ['\n']] else []
      have htail : Stroke.Divided tail ∧ (∀ w, tail.head? ≠ some (.word w)) ∧
          (∀ y ∈ tail, y.Sealed o) ∧
          Stroke.textOf tail = (if o.endWithNewline then ['\n'] else []) ∧
          ∀ l : Layout, (tail.foldl (Stroke.step o) l).printer.lines = l.printer.lines ∧
            (tail.foldl (Stroke.step o) l).printer.line = l.printer.line := by
        cases hnewline : o.endWithNewline <;> simp [tail, hnewline, Stroke.Divided, Stroke.Sealed,
          Stroke.textOf, Stroke.text, Stroke.step, Layout.print, Printer.noteGap]
        decide
      obtain ⟨hdivided, hnoword, hgap, htext, hsame⟩ := htail
      obtain ⟨ys, hlines, hblank, hstart, hys, hsealed, hagain⟩ :=
        exists_strokes_of_isSteady ho hs hsteady hdivided hnoword
      have hout : out = Stroke.textOf (ys ++ tail) := by
        rw [Stroke.textOf_append, htext, ← hlines, ← Except.ok.inj h]
      have hall := List.forall_mem_append.mpr ⟨hsealed, hgap⟩
      -- the output is read as the strokes that were printed, and laid out like the markup
      have hscan : Item.scan o out = Stroke.items (ys ++ tail) := by
        rw [hout, Stroke.scan_textOf hys hall]
      have hrun : Layout.run o (Item.scan o out) =
          tail.foldl (Stroke.step o) ((Layout.run o (Item.scan o s)).noting []) := by
        rw [hscan, Layout.run, Stroke.foldl_items hys fun w hw => (hall _ hw).2, List.foldl_append,
          hagain]
      have hlayout : layoutLines o out = layoutLines o s := by
        rw [layoutLines, layoutLines, hrun]
        exact finish_congr (hsame _).1 (hsame _).2
      have hsolid : ¬ Text.allBlank out = true := by
        rw [hout, Stroke.textOf_append]
        exact fun hb => hblank (Text.blank_append.mp hb).1
      constructor
      · rw [formatMarkup, if_neg hsolid, hfault, hlayout]
        exact h
      · intro c hc
        rw [hout] at hc
        refine Stroke.isBlank_head_textOf hys hall (fun g => ?_) hc
        cases ys with
        | nil => exact absurd Text.blank_nil hblank
        | cons y ys => exact hstart g

end TemplateTidy
