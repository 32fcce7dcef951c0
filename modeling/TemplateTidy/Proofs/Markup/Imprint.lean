import TemplateTidy.Proofs.Markup.Flow
import TemplateTidy.Proofs.Markup.Stroke

/-!
# What is printed in one go

The layout prints items one after the other, but a text in several steps: word by word,
with the tags of handlebars blocks between the words if they stand out. An *imprint* is
what one such step prints, or white space that it only notes.

Nearly all imprints are printed as they stand. Only a start tag depends on where it is
printed, and what is printed of it is one of its renderings (`Imprint.Yields`). The content
of an element is put behind its start tag; everything else is placed on its own
(`Imprint.prints_step`).

Main results: `Imprint.foldl_ofItems`, `Imprint.follows_ofItems`, `Imprint.prints_step`.
-/

namespace TemplateTidy

open Printer (Prints)

/-- What the layout prints in one go, or the white space before it. -/
inductive Imprint where
  | gap (blank : Text)
  | word (letters : Text)
  /-- A tag of a handlebars block. -/
  | blockTag (raw : Text)
  /-- An item that is no text. -/
  | item (i : Item)
  deriving DecidableEq

namespace Imprint

/-- The characters of an imprint. -/
def raw : Imprint → Text
  | gap s | word s | blockTag s => s
  | item i => i.raw

/-- The characters of several imprints. -/
def rawOf (xs : List Imprint) : Text :=
  xs.flatMap raw

@[simp] theorem rawOf_cons (x : Imprint) (xs : List Imprint) :
    rawOf (x :: xs) = x.raw ++ rawOf xs := rfl

@[simp] theorem rawOf_append (xs ys : List Imprint) : rawOf (xs ++ ys) = rawOf xs ++ rawOf ys :=
  List.flatMap_append

/-- The imprint is white space. -/
def isGap : Imprint → Bool
  | gap _ => true
  | _ => false

/-- The imprint is content that is not read as markup. -/
def isBody : Imprint → Bool
  | item (.body _ _) => true
  | _ => false

/-- The imprint is an item of markup. -/
def isMarkup : Imprint → Bool
  | item i => i.isMarkup
  | _ => false

/-! ## The imprints of items -/

/-- A chunk of a text is an imprint. -/
def ofChunk : Chunk → Imprint
  | .gap s => gap s
  | .word s => word s

/-- The gaps and words of a text. -/
def ofWords (raw : Text) : List Imprint :=
  (Chunk.ofText raw).map ofChunk

/-- The imprints of a text in which tags of handlebars blocks stand out. -/
def ofBlocks (raw : Text) : List Imprint :=
  match Text.search? Layout.blockTag raw with
  | none => ofWords raw
  | some (i, n) =>
    if raw.length < i + n ∨ n = 0 then ofWords raw
    else ofWords (raw.take i) ++ blockTag ((raw.drop i).take n) :: ofBlocks (raw.drop (i + n))
termination_by raw.length
decreasing_by
  simp only [List.length_drop]
  omega

/-- The imprints of an item. Only texts are divided. -/
def ofItem (o : MarkupOptions) : Item → List Imprint
  | .text raw => if o.indentHandlebars then ofBlocks raw else ofWords raw
  | i => [item i]

/-- The imprints of several items. -/
def ofItems (o : MarkupOptions) (items : List Item) : List Imprint :=
  items.flatMap (ofItem o)

/-- Prints an imprint. -/
def step (o : MarkupOptions) (l : Layout) : Imprint → Layout
  | gap s => l.print (·.noteGap s)
  | word s => l.print (·.inline o s false true)
  | blockTag s => l.onBlockTag o s
  | item i => l.step o i

/-- Any item but a text is one imprint. -/
theorem ofItem_of_ne {o : MarkupOptions} {i : Item} (h : ∀ raw, i ≠ .text raw) :
    ofItem o i = [item i] := by
  cases i with
  | text raw => exact absurd rfl (h raw)
  | _ => rfl

/-- The imprints of words are printed as the words are. -/
theorem foldl_ofWords (o : MarkupOptions) (l : Layout) (raw : Text) :
    (ofWords raw).foldl (step o) l = l.words o raw := by
  rw [ofWords, List.foldl_map, Layout.words]
  congr 1
  funext l x
  cases x <;> rfl

/-- So are those of a text with tags of handlebars blocks. -/
theorem foldl_ofBlocks (o : MarkupOptions) (l : Layout) (raw : Text) :
    (ofBlocks raw).foldl (step o) l = l.blocks o raw := by
  fun_induction Layout.blocks o l raw with
  | case1 l raw hnone =>
    rw [ofBlocks, hnone]
    exact foldl_ofWords o l raw
  | case2 l raw i n hsome hguard =>
    rw [ofBlocks, hsome]
    dsimp only
    rw [if_pos hguard]
    exact foldl_ofWords o l raw
  | case3 l raw i n hsome hguard l' =>
    rename_i ih
    rw [ofBlocks, hsome]
    dsimp only
    rw [if_neg hguard, List.foldl_append, foldl_ofWords, List.foldl_cons]
    exact ih

/-- **The imprints of an item are printed as the item is.** -/
theorem foldl_ofItem (o : MarkupOptions) (l : Layout) (i : Item) :
    (ofItem o i).foldl (step o) l = l.step o i := by
  cases i with
  | text raw =>
    rw [ofItem, Layout.step, Layout.onText]
    split
    · exact foldl_ofBlocks o l raw
    · exact foldl_ofWords o l raw
  | _ => rfl

/-- **Items are printed imprint by imprint.** -/
theorem foldl_ofItems (o : MarkupOptions) (items : List Item) (l : Layout) :
    (ofItems o items).foldl (step o) l = items.foldl (Layout.step o) l := by
  induction items generalizing l with
  | nil => rfl
  | cons i items ih =>
    rw [ofItems, List.flatMap_cons, List.foldl_append, foldl_ofItem, List.foldl_cons]
    exact ih _

/-- The imprints of words are the text. -/
theorem rawOf_ofWords (raw : Text) : rawOf (ofWords raw) = raw := by
  have htext := Chunk.textOf_ofText raw
  rw [rawOf, ofWords, List.flatMap_map]
  refine Eq.trans ?_ htext
  rw [Chunk.textOf]
  congr 1
  funext x
  cases x <;> rfl

/-- So are those of a text with tags of handlebars blocks. -/
theorem rawOf_ofBlocks (raw : Text) : rawOf (ofBlocks raw) = raw := by
  fun_induction ofBlocks raw with
  | case1 raw hnone => exact rawOf_ofWords raw
  | case2 raw i n hsome hguard => exact rawOf_ofWords raw
  | case3 raw i n hsome hguard ih =>
    have hcut : (raw.drop i).take n ++ raw.drop (i + n) = raw.drop i := by
      rw [← List.drop_drop, List.take_append_drop]
    rw [rawOf_append, rawOf_ofWords, rawOf_cons, ih, Imprint.raw, hcut, List.take_append_drop]

/-- **The imprints of an item are the item.** -/
theorem rawOf_ofItem (o : MarkupOptions) (i : Item) : rawOf (ofItem o i) = i.raw := by
  cases i with
  | text raw =>
    rw [ofItem]
    split
    · exact rawOf_ofBlocks raw
    · exact rawOf_ofWords raw
  | _ => exact List.append_nil _

/-- The imprints of items, put together, are the items. -/
theorem rawOf_ofItems (o : MarkupOptions) (items : List Item) :
    rawOf (ofItems o items) = Item.rawOf items := by
  induction items with
  | nil => rfl
  | cons i items ih =>
    rw [ofItems, List.flatMap_cons, rawOf_append, rawOf_ofItem]
    exact congrArg (i.raw ++ ·) ih

/-! ## How imprints follow each other -/

/-- A gap is white space, a word ends in a letter, and an item begins as it must. -/
def Formed : Imprint → Prop
  | gap s => s.Blank ∧ s ≠ []
  | word s | blockTag s => s.Tight ∧ s ≠ []
  | item i => i.Formed ∧ ∀ raw, i ≠ .text raw

/-- Imprints may follow a character. Content stands behind the bracket of its start tag, and
only the last item may be unfinished. -/
def Follows : Option Char → List Imprint → Prop
  | _, [] => True
  | last, x :: xs =>
    x.Formed ∧ (x.isBody = true → last = some '>') ∧
    (x.isMarkup = true → x.raw.getLast? = some '>' ∨ xs = []) ∧ Follows x.raw.getLast? xs

/-- Imprints are not empty. -/
theorem Formed.raw_ne_nil {x : Imprint} (h : x.Formed) : x.raw ≠ [] := by
  cases x with
  | gap s => exact h.2
  | word s => exact h.2
  | blockTag s => exact h.2
  | item i => exact Item.Formed.raw_ne_nil h.1

/-- A part of a text. -/
def isPart : Imprint → Bool
  | item _ => false
  | _ => true

/-- Parts of a text may follow anything. -/
theorem follows_parts {last : Option Char} {parts xs : List Imprint} (hne : parts ≠ [])
    (hparts : ∀ x ∈ parts, x.Formed ∧ x.isPart = true) (h : Follows (rawOf parts).getLast? xs) :
    Follows last (parts ++ xs) := by
  induction parts generalizing last with
  | nil => exact absurd rfl hne
  | cons x parts ih =>
    obtain ⟨⟨hformed, hpart⟩, hparts⟩ := List.forall_mem_cons.mp hparts
    have hplain : x.isBody = false ∧ x.isMarkup = false := by
      cases x with
      | item i => cases hpart
      | _ => exact ⟨rfl, rfl⟩
    refine ⟨hformed, by simp [hplain.1], by simp [hplain.2], ?_⟩
    -- what comes behind the parts sees the last character of the last part
    by_cases hmore : parts = []
    · subst hmore
      simpa [rawOf] using h
    · refine ih hmore hparts ?_
      obtain ⟨y, ys, rfl⟩ := List.exists_cons_of_ne_nil hmore
      have hy : rawOf (y :: ys) ≠ [] := by
        have := (hparts y (List.mem_cons_self ..)).1.raw_ne_nil
        simp [this]
      rwa [rawOf_cons, List.getLast?_append_of_ne_nil _ hy] at h

/-- Gaps between words are white space, and are not empty. -/
theorem gap_of_mem_spaced {chunks : List Chunk} (h : Chunk.Spaced chunks) {s : Text}
    (hs : .gap s ∈ chunks) : s.Blank ∧ s ≠ [] := by
  induction chunks with
  | nil => cases hs
  | cons x chunks ih =>
    cases x with
    | gap t =>
      obtain ⟨hblank, hne, hrest⟩ := h
      rcases List.mem_cons.mp hs with heq | hs
      · rw [Chunk.gap.inj heq]
        exact ⟨hblank, hne⟩
      · exact ih hrest hs
    | word t => exact ih h.2.2 (by simpa using hs)

/-- Words between gaps are not empty. -/
theorem word_of_mem_spaced {chunks : List Chunk} (h : Chunk.Spaced chunks) {s : Text}
    (hs : .word s ∈ chunks) : s ≠ [] :=
  Chunk.ne_nil_of_mem_wordsOf h s (List.mem_filterMap.mpr ⟨_, hs, rfl⟩)

/-- The imprints of words are formed, and parts of a text. -/
theorem formed_of_mem_ofWords {raw : Text} {x : Imprint} (h : x ∈ ofWords raw) :
    x.Formed ∧ x.isPart = true := by
  obtain ⟨chunk, hchunk, rfl⟩ := List.mem_map.mp h
  have hspaced := Chunk.spaced_ofText raw
  cases chunk with
  | gap s => exact ⟨gap_of_mem_spaced hspaced hchunk, rfl⟩
  | word s =>
    exact ⟨⟨Chunk.tight_of_mem_ofText hchunk, word_of_mem_spaced hspaced hchunk⟩, rfl⟩

/-- So are those of a text with tags of handlebars blocks. -/
theorem formed_of_mem_ofBlocks {raw : Text} {x : Imprint} (h : x ∈ ofBlocks raw) :
    x.Formed ∧ x.isPart = true := by
  fun_induction ofBlocks raw with
  | case1 raw hnone => exact formed_of_mem_ofWords h
  | case2 raw i n hsome hguard => exact formed_of_mem_ofWords h
  | case3 raw i n hsome hguard ih =>
    rcases List.mem_append.mp h with h | h
    · exact formed_of_mem_ofWords h
    · rcases List.mem_cons.mp h with rfl | h
      · -- the tag ends with a brace
        obtain ⟨-, hlast⟩ := Layout.blockTag_spec (Text.search?_spec hsome)
        obtain ⟨t, ht⟩ := List.getLast?_eq_some_iff.mp hlast
        refine ⟨?_, rfl⟩
        rw [Formed, ht]
        exact ⟨Text.tight_concat (by decide) t, by simp⟩
      · exact ih h

/-- So are those of any item that is a text. -/
theorem formed_of_mem_ofText {o : MarkupOptions} {raw : Text} {x : Imprint}
    (h : x ∈ ofItem o (.text raw)) : x.Formed ∧ x.isPart = true := by
  rw [ofItem] at h
  split at h
  · exact formed_of_mem_ofBlocks h
  · exact formed_of_mem_ofWords h

/-- **The imprints of items follow each other** as the items do. -/
theorem follows_ofItems (o : MarkupOptions) {last : Option Char} {items : List Item}
    (h : Item.Follows last items) : Follows last (ofItems o items) := by
  induction items generalizing last with
  | nil => trivial
  | cons i items ih =>
    obtain ⟨hjoins, hformed, hclosed, hrest⟩ := h
    have hmore := ih hrest
    rw [ofItems, List.flatMap_cons]
    -- a text is divided into parts, any other item is an imprint as it is
    by_cases htext : ∃ raw, i = .text raw
    · obtain ⟨raw, rfl⟩ := htext
      have hraw : rawOf (ofItem o (.text raw)) = raw := rawOf_ofItem o (.text raw)
      refine follows_parts (fun hnil => ?_) (fun x hx => formed_of_mem_ofText hx) ?_
      · rw [hnil] at hraw
        exact hformed hraw.symm
      · rw [hraw]
        exact hmore
    · have hne : ∀ raw, i ≠ .text raw := fun raw heq => htext ⟨raw, heq⟩
      rw [ofItem_of_ne hne, List.singleton_append]
      refine ⟨⟨hformed, hne⟩, fun hbody => ?_, fun hmarkup => ?_, hmore⟩
      · cases i with
        | body raw name => exact hjoins
        | _ => cases hbody
      · exact (hclosed hmarkup).imp_right fun hnil => by rw [hnil]; rfl

/-- The imprint is placed on its own. -/
def isPlaced (x : Imprint) : Bool :=
  !x.isGap && !x.isBody

/-- An item that is placed on its own is markup. -/
theorem Formed.isMarkup_of_isPlaced {i : Item} (h : (item i).Formed)
    (hplaced : (item i).isPlaced = true) : i.isMarkup = true := by
  cases i with
  | text raw => exact absurd rfl (h.2 raw)
  | body raw name => cases hplaced
  | _ => rfl

/-- What is placed on its own has a letter. -/
theorem Formed.not_blank {x : Imprint} (h : x.Formed) (hplaced : x.isPlaced = true) :
    ¬ x.raw.Blank := by
  have htight : ∀ {s : Text}, s.Tight → s ≠ [] → ¬ s.Blank := by
    intro s hs hne hblank
    exact hne (hs.symm.trans (Text.trimRight_eq_nil_iff.mpr hblank))
  cases x with
  | gap s => cases hplaced
  | word s => exact htight h.1 h.2
  | blockTag s => exact htight h.1 h.2
  | item i =>
    intro hblank
    have hhead := Item.Formed.head_of_isMarkup h.1 (h.isMarkup_of_isPlaced hplaced)
    have hchar := hblank.of_mem (List.mem_of_mem_head? hhead)
    exact absurd hchar (by decide)

/-- Nothing is printed of white space. -/
theorem isGap_of_blank {last : Option Char} {xs : List Imprint} (h : Follows last xs)
    (hlast : last ≠ some '>') (hblank : (rawOf xs).Blank) : ∀ x ∈ xs, x.isGap = true := by
  induction xs generalizing last with
  | nil => exact fun _ hx => nomatch hx
  | cons x xs ih =>
    obtain ⟨hformed, hbody, -, hrest⟩ := h
    rw [rawOf_cons, Text.blank_append] at hblank
    have hgap : x.isGap = true := by
      by_contra hgap
      refine hformed.not_blank ?_ hblank.1
      have hplain : x.isBody = false := Bool.eq_false_iff.mpr fun h => hlast (hbody h)
      simpa [isPlaced, hplain] using hgap
    refine List.forall_mem_cons.mpr ⟨hgap, ih hrest (fun heq => ?_) hblank.2⟩
    have hchar := hblank.1.of_mem (List.mem_of_getLast? heq)
    exact absurd hchar (by decide)

/-! ## Printing an imprint -/

/-- The text may be printed for the imprint: itself, or a start tag as it is rendered at some
depth and column. -/
def Yields (o : MarkupOptions) : Imprint → Text → Prop
  | item (.startTag tag), t => ∃ depth column, t = tag.render o depth column
  | x, t => t = x.raw

/-- Whatever is no start tag yields itself. -/
theorem yields_iff {o : MarkupOptions} {x : Imprint} (h : ∀ tag, x ≠ item (.startTag tag))
    {t : Text} : x.Yields o t ↔ t = x.raw := by
  cases x with
  | item i =>
    cases i with
    | startTag tag => exact absurd rfl (h tag)
    | _ => exact Iff.rfl
  | _ => exact Iff.rfl

/-- **A start tag is printed**, rendered for the place where it stands. -/
theorem prints_onStart {o : MarkupOptions} (ho : o.IndentsBlank) (l : Layout) (tag : StartTag) :
    ∃ depth column, Prints l.printer (l.onStart o tag).printer (tag.render o depth column) := by
  obtain ⟨depth, stack, -, hclosed, -⟩ := Layout.exists_closed l tag.name
  have hprint : ∃ d column, Prints { l.printer with depth := depth }
      (if Element.isInline tag.name then
        Layout.printInlineStart o { l.printer with depth := depth } tag
      else Layout.printBlockStart o { l.printer with depth := depth } tag)
      (tag.render o d column) := by
    split
    · exact Layout.prints_inlineStart ho _ tag
    · exact Layout.prints_blockStart ho _ tag
  obtain ⟨d, column, hprints⟩ := hprint
  refine ⟨d, column, ?_⟩
  rw [Layout.onStart_eq, hclosed]
  unfold Layout.opened
  split
  · exact ⟨hprints.whole_eq, hprints.neat⟩
  · exact ⟨hprints.whole_eq, hprints.neat⟩

/-- **An imprint that is placed is printed** behind the solid part of what has been printed. -/
theorem prints_step {o : MarkupOptions} (ho : o.IndentsBlank) (l : Layout) {x : Imprint}
    (hx : x.Formed) (hplaced : x.isPlaced = true) :
    ∃ t, x.Yields o t ∧ Prints l.printer (x.step o l).printer t := by
  cases x with
  | gap s => cases hplaced
  | word s => exact ⟨s, rfl, Printer.prints_inline ho l.printer s false true⟩
  | blockTag s => exact ⟨s, rfl, Layout.prints_blockTag ho l s⟩
  | item i =>
    cases i with
    | text raw => exact absurd rfl (hx.2 raw)
    | body raw name => cases hplaced
    | startTag tag =>
      obtain ⟨depth, column, hprints⟩ := prints_onStart ho l tag
      exact ⟨_, ⟨depth, column, rfl⟩, hprints⟩
    | endTag raw name => exact ⟨raw, rfl, Layout.prints_onEnd ho l raw name⟩
    | comment raw => exact ⟨raw, rfl, Printer.prints_inline ho l.printer raw true false⟩
    | template raw => exact ⟨raw, rfl, Printer.prints_inline ho l.printer raw true false⟩
    | declaration raw => exact ⟨raw, rfl, Printer.prints_block ho l.printer raw⟩
    | verbatim raw name => exact ⟨raw, rfl, Layout.prints_onVerbatim ho l raw name⟩

/-- What is printed on its own has letters. -/
theorem not_blank_of_yields {o : MarkupOptions} (ho : o.IndentsBlank) {x : Imprint}
    (hx : x.Formed) (hplaced : x.isPlaced = true) {t : Text} (ht : x.Yields o t) : ¬ t.Blank := by
  by_cases htag : ∃ tag, x = item (.startTag tag)
  · obtain ⟨tag, rfl⟩ := htag
    obtain ⟨depth, column, rfl⟩ := ht
    obtain ⟨⟨c, r, hraw, -⟩, -⟩ := hx
    exact StartTag.not_blank_render ho hraw depth column
  · rw [(yields_iff fun tag heq => htag ⟨tag, heq⟩).mp ht]
    exact hx.not_blank hplaced

/-- A start tag that is closed has no white space at its end in print. -/
theorem tight_render {o : MarkupOptions} (ho : o.IndentsBlank) {tag : StartTag}
    (hclosed : tag.raw.getLast? = some '>') (depth : Int) (column : Nat) :
    (tag.render o depth column).Tight := by
  cases hkept : tag.isKept o with
  | true =>
    obtain ⟨r, hr⟩ := List.getLast?_eq_some_iff.mp hclosed
    rw [StartTag.render_of_isKept hkept, hr]
    exact Text.tight_concat (by decide) r
  | false =>
    obtain ⟨attrs, pad, -, -, -, hrender⟩ := (StartTag.renders_render ho hkept depth column).eq
    rw [hrender]
    exact Text.tight_concat (by decide) _

/-- What is printed of a finished item ends in a letter. -/
theorem tight_of_yields {o : MarkupOptions} (ho : o.IndentsBlank) {x : Imprint}
    (hx : x.Formed) (hplaced : x.isPlaced = true)
    (hclosed : x.isMarkup = true → x.raw.getLast? = some '>') {t : Text} (ht : x.Yields o t) :
    t.Tight := by
  by_cases htag : ∃ tag, x = item (.startTag tag)
  · obtain ⟨tag, rfl⟩ := htag
    obtain ⟨depth, column, rfl⟩ := ht
    exact tight_render ho (hclosed rfl) depth column
  · rw [(yields_iff fun tag heq => htag ⟨tag, heq⟩).mp ht]
    cases x with
    | gap s => cases hplaced
    | word s => exact hx.1
    | blockTag s => exact hx.1
    | item i =>
      obtain ⟨r, hr⟩ := List.getLast?_eq_some_iff.mp (hclosed (hx.isMarkup_of_isPlaced hplaced))
      rw [hr]
      exact Text.tight_concat (by decide) r

end Imprint

/-- The imprints of markup. -/
def imprintsOf (o : MarkupOptions) (s : Text) : List Imprint :=
  Imprint.ofItems o (Item.scan o s)

/-- The imprints of markup follow each other as they must. -/
theorem follows_imprintsOf (o : MarkupOptions) (s : Text) :
    Imprint.Follows none (imprintsOf o s) :=
  Imprint.follows_ofItems o (Item.follows_scan o (.inl rfl))

/-- The imprints of markup are the markup. -/
theorem rawOf_imprintsOf (o : MarkupOptions) (s : Text) : Imprint.rawOf (imprintsOf o s) = s := by
  rw [imprintsOf, Imprint.rawOf_ofItems, Item.rawOf_scan]

end TemplateTidy
