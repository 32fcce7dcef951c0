import TemplateTidy.Proofs.Markup.Glue

/-!
# Content that is copied

The content of an element that is not read as markup stands behind its start tag, and it is
printed there as it stands. The end tag follows directly, since nothing has been noted between
them and the element is on the line on which it began. Only the end tag of an inline element
flows: where it does not fit behind the content, it goes to the next line, and the content
loses the white space at its end.

Main result: `formatMarkup_keeps_content`.
-/

namespace TemplateTidy

/-! ## Where content stands -/

namespace Item

/-- Content is read together with the tag of an element that has an end. -/
theorem content_of_markup? {o : MarkupOptions} {s : Text} {tag : StartTag} {content name : Text}
    (h : markup? o s = some [startTag tag, body content name]) :
    tag.name = name ∧ tag.void = false := by
  unfold markup? at h
  split at h
  · simp at h
  split at h
  · simp at h
  split at h
  · simp at h
  · split at h
    · simp at h
    · cases h
  · split at h
    · rw [Option.some.injEq, element] at h
      dsimp only at h
      split at h
      · simp at h
      split at h
      · -- the one case with two items: the tag and its content
        rename_i hkeeps
        split at h
        · simp at h
        · simp only [List.cons.injEq, startTag.injEq, body.injEq, and_true] at h
          obtain ⟨rfl, -, rfl⟩ := h
          rw [Bool.and_eq_true, Bool.not_eq_true'] at hkeeps
          exact ⟨rfl, hkeeps.1⟩
      · simp at h
    · cases h
  · cases h

/-- Content stands directly behind the start tag of its element. -/
theorem exists_startTag_of_scan {o : MarkupOptions} {s : Text} {before after : List Item}
    {content name : Text} (h : scan o s = before ++ body content name :: after) :
    ∃ front tag, before = front ++ [startTag tag] ∧ tag.name = name ∧ tag.void = false := by
  obtain ⟨front, done, todo, rest, rfl, -, hread⟩ :=
    exists_markup?_of_scan h (fun _ => Item.noConfusion)
  rcases (fronts_markup? hread).before_eq with rfl | ⟨tag, content', name', rfl, hbody, rfl⟩
  · -- content does not begin anything
    generalize hitems : [] ++ body content name :: todo = items at hread
    cases fronts_markup? hread with
    | single _ hmarkup =>
      rw [← (List.cons.inj hitems).1] at hmarkup
      cases hmarkup
    | content => cases (List.cons.inj hitems).1
  · rw [List.singleton_append] at hread
    exact ⟨front, tag, rfl, content_of_markup? hread⟩

/-- Markup ends in a letter, unless it is the last item. -/
theorem tight_of_scan {o : MarkupOptions} {s : Text} {before after : List Item} {i : Item}
    (h : scan o s = before ++ i :: after) (hi : i.isMarkup = true) : i.raw.Tight ∨ after = [] := by
  have hfollows := follows_scan o (s := s) (.inl rfl)
  rw [h] at hfollows
  refine (hfollows.at.2 hi).imp_left fun hlast => ?_
  obtain ⟨r, hr⟩ := List.getLast?_eq_some_iff.mp hlast
  rw [hr]
  exact Text.tight_concat (by decide) r

end Item

/-! ## The line of the start tag -/

namespace Printer

variable {o : MarkupOptions}

/-- A block leaves no white space noted. -/
theorem still_blockBy (o : MarkupOptions) (p : Printer) (render : Nat → Text) (extra : Bool) :
    (p.blockBy o render extra).Still := by
  have hplace := still_place o p true false
  unfold blockBy
  dsimp only
  split
  · exact hplace
  · exact hplace

/-- A block ends its line with a letter, if it is printed so. -/
theorem inked_blockBy (o : MarkupOptions) (p : Printer) {render : Nat → Text}
    (hrender : ∀ column, (render column).Tight ∧ ¬ (render column).Blank) (extra : Bool) :
    (p.blockBy o render extra).Inked :=
  inked_write _ (hrender _).2 (hrender _).1

/-- A printer stays ready when content is put at the end of its line. -/
theorem Ready.glue {p : Printer} (h : p.Ready) (content : Text) : (p.glue content).Ready :=
  ⟨Layout.hasContent_glue h.content content, h.still, h.along⟩

end Printer

/-! ## The element as a whole -/

namespace Layout

variable {o : MarkupOptions}

/-- Behind a start tag that is finished and opens an element, the printer stands at a letter and
is ready. -/
theorem ready_onStart (l : Layout) {tag : StartTag}
    (hrender : ∀ depth column,
      (tag.render o depth column).Tight ∧ ¬ (tag.render o depth column).Blank)
    (hvoid : tag.void = false) :
    (l.onStart o tag).printer.Inked ∧ (l.onStart o tag).printer.Ready := by
  -- in both ways of printing a tag the line ends with a letter of it
  have hprinted : ∀ p : Printer,
      (if Element.isInline tag.name then printInlineStart o p tag
        else printBlockStart o p tag).Inked ∧
      (if Element.isInline tag.name then printInlineStart o p tag
        else printBlockStart o p tag).Still := by
    intro p
    split
    · rw [printInlineStart_eq]
      exact ⟨Printer.inked_inlineBy o p (hrender _) false true, Printer.still_inlineBy ..⟩
    · rw [printBlockStart_eq]
      exact ⟨Printer.inked_blockBy o p (hrender _) _,
        Printer.still_blockBy o p (tag.render o p.depth) _⟩
  have halong := (onStart_opens (o := o) l hvoid).1
  obtain ⟨hinked, hstill⟩ := hprinted (l.closed tag.name).printer
  rw [onStart_eq, opened, hvoid, if_neg Bool.false_ne_true] at halong ⊢
  exact ⟨hinked, Printer.Inked.hasContent hinked, hstill, halong⟩

/-- The end tag follows its content directly, or goes to the next line. -/
theorem whole_onEnd_glue {l : Layout} (hinked : l.printer.Inked) (hready : l.printer.Ready)
    {name : Text} {indented : Bool} {rest : List OpenElement}
    (hstack : l.stack = ⟨name, l.printer.lines.length, indented⟩ :: rest) (content close : Text) :
    ∃ depth, ((l.print (·.glue content)).onEnd o close name).printer.whole =
      if Element.isInline name = true ∧ o.Overflows (l.printer.whole ++ content) close then
        l.printer.whole ++ Text.trimRight content ++ '\n' :: o.indent depth ++ close
      else l.printer.whole ++ content ++ close := by
  have hwhole : (l.printer.glue content).whole = l.printer.whole ++ content := by
    simp [Printer.whole, Printer.glue]
  cases hinline : Element.isInline name with
  | false =>
    -- no line has been finished since the element was opened, so its end does not start one
    obtain ⟨depth, b, hprinted⟩ : ∃ depth b, (l.print (·.glue content)).onEnd o close name =
        ⟨{ l.printer.settled with
            line := close.reverse ++ (content.reverse ++ l.printer.line), depth, breakNext := b },
          rest⟩ :=
      exists_onEnd_glue hinked hready.still hready.along hstack (.inl hinline)
    refine ⟨depth, ?_⟩
    rw [hprinted, if_neg (by simp)]
    simp [Printer.whole, Printer.settled]
  | true =>
    -- the end tag flows like a word, and a line that is finished loses its gap
    have hsolid : (l.printer.glue content).solid = l.printer.whole ++ Text.trimRight content := by
      rw [Printer.solid, hwhole, ← hinked.solid_eq]
      exact Text.trimRight_append_of_tight (Text.tight_trimRight _) content
    obtain ⟨depth, hstep⟩ := Imprint.whole_step (o := o) (l := l.print (·.glue content))
      (hready.glue content) (y := .item (.endTag close name)) hinline
    have hwraps : (Imprint.item (.endTag close name)).Wraps o depth (l.printer.glue content).whole ↔
        true = true ∧ o.Overflows (l.printer.whole ++ content) close := by
      rw [← hwhole]
      exact Iff.rfl
    refine ⟨depth, hstep.trans (if_congr hwraps ?_ ?_)⟩
    · exact congrArg (· ++ '\n' :: o.indent depth ++ close) hsolid
    · exact congrArg (· ++ close) hwhole

/-- **An element whose content is not read as markup** is printed in one piece, unless its end
tag flows and does not fit. -/
theorem solid_onElement (ho : o.IndentsBlank) (l : Layout) {tag : StartTag}
    (hformed : (Item.startTag tag).Formed) (hfinished : tag.raw.getLast? = some '>')
    (hvoid : tag.void = false) (content : Text) {close : Text} (hclose : ¬ close.Blank) :
    ∃ (pad : Text) (depth : Int) (column : Nat) (depth' : Int), pad.Blank ∧
      let lead := l.printer.solid ++ pad ++ tag.render o depth column
      (l.onElement o tag content close).printer.solid =
        if Element.isInline tag.name = true ∧ o.Overflows (lead ++ content) close then
          lead ++ Text.trimRight content ++ '\n' :: o.indent depth' ++ Text.trimRight close
        else lead ++ content ++ Text.trimRight close := by
  obtain ⟨c, r, hraw, -⟩ := hformed
  have hrender : ∀ depth column,
      (tag.render o depth column).Tight ∧ ¬ (tag.render o depth column).Blank :=
    fun depth column => ⟨Imprint.tight_render ho hfinished depth column,
      StartTag.not_blank_render ho hraw depth column⟩
  -- behind its start tag the element is the innermost one, on the line where it began
  obtain ⟨hinked, hready⟩ := l.ready_onStart hrender hvoid
  obtain ⟨depth, column, hprints⟩ := Imprint.prints_onStart ho l tag
  obtain ⟨pad, hpad, hwhole, -⟩ := hprints.whole_eq
  obtain ⟨-, indented, rest, hstack⟩ := onStart_opens (o := o) l hvoid
  obtain ⟨depth', hend⟩ := whole_onEnd_glue (o := o) hinked hready hstack content close
  refine ⟨pad, depth, column, depth', hpad, ?_⟩
  rw [hwhole] at hend
  dsimp only
  rw [Printer.solid, onElement, hend]
  split
  · rw [Text.trimRight_append hclose]
  · rw [Text.trimRight_append hclose]

/-- What follows an element whose content is not read as markup is printed behind its end tag. -/
theorem standing_onElement (ho : o.IndentsBlank) {l : Layout} (h : l.printer.Neat) (tag : StartTag)
    (content : Text) {close : Text} (hclose : ¬ close.Blank) (last : Option Char) :
    Standing last [] (l.onElement o tag content close).printer := by
  obtain ⟨_, _, hstart⟩ := Imprint.prints_onStart ho l tag
  have hend := prints_onEnd ho ((l.onStart o tag).print (·.glue content)) close tag.name
  refine ⟨hend.neat (hstart.neat h), Text.blank_nil, fun h => absurd rfl h, fun _ => ⟨rfl, ?_⟩⟩
  obtain ⟨pad, -, hwhole, -⟩ := hend.whole_eq
  intro hsolid
  rw [onElement, Printer.solid, hwhole, Text.trimRight_append hclose] at hsolid
  exact hclose (Text.trimRight_eq_nil_iff.mp (List.append_eq_nil_iff.mp hsolid).2)

end Layout

/-! ## The markup as a whole -/

/-- **Content is copied.** Under an indentation of white space whose width lies below the limit
of machine words, the formatter gives a result exactly if the indentation can be made. Where
content that is not read as markup is followed by the end tag of its element, its start tag
stands before it. The result has the rendered start tag, the content and the end tag directly
behind each other, unless the element is inline and its end tag does not fit on the line. Then
the content loses the white space at its end, and the end tag is printed on the next line,
behind the indentation. An end tag that is left unfinished at the end of the markup loses the
white space at its end. -/
theorem formatMarkup_keeps_content {o : MarkupOptions} (ho : o.IndentsBlank)
    (hsize : o.indentSize < 2 ^ 63) {s : Text} {before after : List Item}
    {content name close : Text}
    (hscan : Item.scan o s =
      before ++ Item.body content name :: Item.endTag close name :: after) :
    ((∃ out, formatMarkup o s = .ok out) ↔
        -2 ^ 63 ≤ o.indentSize ∧ o.indentSize * o.indentChar.length < 2 ^ 63) ∧
      ∃ front tag, before = front ++ [Item.startTag tag] ∧ tag.name = name ∧
        ∀ out, formatMarkup o s = .ok out → ∃ pad depth column closer rest,
          pad.Blank ∧ (closer = close ∨ after = [] ∧ closer = Text.trimRight close) ∧
          let lead := (Layout.run o front).printer.solid ++ pad ++ tag.render o depth column
          if Element.isInline name = true ∧ o.Overflows (lead ++ content) close then
            ∃ depth', out =
              lead ++ Text.trimRight content ++ '\n' :: o.indent depth' ++ closer ++ rest
          else out = lead ++ content ++ closer ++ rest := by
  obtain ⟨front, tag, rfl, rfl, hvoid⟩ := Item.exists_startTag_of_scan hscan
  have himprints : imprintsOf o s = Imprint.ofItems o front ++
      Imprint.item (.startTag tag) :: Imprint.item (.body content tag.name) ::
        Imprint.item (.endTag close tag.name) :: Imprint.ofItems o after := by
    simp [imprintsOf, hscan, Imprint.ofItems, Imprint.ofItem]
  -- the markup is not blank, since there is a tag
  have hsolids : ¬ s.Blank := by
    intro hblank
    have hgaps := Imprint.isGap_of_blank (follows_imprintsOf o s) (Option.some_ne_none '>').symm
      (by rwa [rawOf_imprintsOf])
    exact Bool.noConfusion (hgaps (.item (.startTag tag)) (by simp [himprints]))
  refine ⟨(exists_formatMarkup_iff_of_lt hsize s).trans (or_iff_right hsolids),
    front, tag, rfl, rfl, fun out hout => ?_⟩
  obtain ⟨feed, -, rfl⟩ := formatMarkup_eq_solid ho hout
  -- what is printed of the items in front of the element, and then of the element
  have hfollows := follows_imprintsOf o s
  rw [himprints] at hfollows ⊢
  rw [List.foldl_append]
  obtain ⟨_, rest, hrows⟩ := Reaches.run ho standing_start hfollows
  obtain ⟨_, hstanding, hformed, -, hfinished, -, -, -, hend, -, -, hmore⟩ := hrows.standing
  rw [Imprint.foldl_ofItems, ← Layout.run] at hstanding ⊢
  have hclose : ¬ close.Blank := hend.not_blank rfl
  obtain ⟨pad, depth, column, depth', hpad, hsolid⟩ :=
    Layout.solid_onElement ho (Layout.run o front) hformed.1
      ((hfinished rfl).resolve_right (List.cons_ne_nil _ _)) hvoid content hclose
  -- whatever follows is printed behind that
  have hbehind := Layout.standing_onElement ho hstanding.neat tag content hclose close.getLast?
  obtain ⟨rows, _, hrest⟩ := Composed.run ho hbehind hmore
  refine ⟨pad, depth, column, Text.trimRight close, Row.printed rows ++ feed, hpad, ?_, ?_⟩
  · rw [List.append_cons] at hscan
    exact (Item.tight_of_scan hscan rfl).imp_right fun hnil => ⟨hnil, rfl⟩
  · have hshape : ((Imprint.ofItems o after).foldl (Imprint.step o)
        ((Layout.run o front).onElement o tag content close)).printer.solid ++ feed =
          ((Layout.run o front).onElement o tag content close).printer.solid ++
            (Row.printed rows ++ feed) := by
      rw [hrest.solid_eq, List.append_assoc]
    dsimp only at hsolid ⊢
    rw [hsolid] at hshape
    split at hshape
    · -- the end tag is wrapped only where it overflows
      rename_i hwraps
      rw [if_pos hwraps]
      exact ⟨depth', hshape⟩
    · rename_i hfits
      rw [if_neg hfits]
      exact hshape

/-- Preformatted content between words. -/
theorem formatMarkup_keeps_content_preformatted :
    let s : Text := "x<pre> a\n  b </pre >y".toList
    let out : Text := "x\n<pre> a\n  b </pre >\ny".toList
    formatMarkup {} s = .ok out ∧ ∃ tag depth column lead rest, tag.name = "pre".toList ∧
      out = lead ++ StartTag.render {} depth column tag ++ " a\n  b ".toList ++
        "</pre >".toList ++ rest := by
  intro s out
  have hout : formatMarkup {} s = .ok out := by decide +kernel
  have hscan : Item.scan {} s =
      [Item.text "x".toList, .startTag ⟨"<pre>".toList, "pre".toList, false, false⟩] ++
        Item.body " a\n  b ".toList "pre".toList ::
          Item.endTag "</pre >".toList "pre".toList :: [.text "y".toList] := by
    decide +kernel
  obtain ⟨-, front, tag, -, htag, hkeeps⟩ :=
    formatMarkup_keeps_content (by decide) (by decide) hscan
  obtain ⟨pad, depth, column, closer, rest, -, hcloser, hprinted⟩ := hkeeps out hout
  -- the tag is that of a block, and something follows it
  dsimp only at hprinted
  rw [if_neg fun hwraps => absurd hwraps.1 (by decide)] at hprinted
  rw [hcloser.resolve_right fun hlast => List.cons_ne_nil _ _ hlast.1] at hprinted
  exact ⟨hout, tag, depth, column, _, rest, htag, hprinted⟩

/-- The end tag of an inline element that does not fit behind its content goes to the next
line. -/
theorem formatMarkup_divides_content :
    let o : MarkupOptions := { wrapLineLength := 20 }
    let s : Text := "<textarea>a </textarea>".toList
    let tag : StartTag := ⟨"<textarea>".toList, "textarea".toList, false, false⟩
    o.IndentsBlank ∧
      Item.scan o s = [.startTag tag, .body "a ".toList tag.name,
        .endTag "</textarea>".toList tag.name] ∧
      formatMarkup o s = .ok "<textarea>a\n</textarea>".toList ∧
      ∀ depth column, ¬ tag.render o depth column ++ "a ".toList ++
        "</textarea>".toList <:+: "<textarea>a\n</textarea>".toList := by
  intro o s tag
  refine ⟨by decide, by decide +kernel, by decide +kernel, fun depth column hinfix => ?_⟩
  -- the content does not stand before the end tag
  have hend : "a </textarea>".toList <:+: "<textarea>a\n</textarea>".toList := by
    refine List.IsInfix.trans (List.IsSuffix.isInfix ?_) hinfix
    exact ⟨tag.render o depth column, by simp⟩
  exact absurd hend (by decide)

end TemplateTidy
