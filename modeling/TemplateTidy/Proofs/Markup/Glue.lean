import TemplateTidy.Proofs.Markup.Composition

/-!
# Glued content

Words, comments, templating tags and the tags of inline elements *flow*: they are printed
on the line where the last thing stands. Behind something that flows, the printer is *ready*.
Its line has content, no white space has been noted, and nothing forces a new line. What flows
and follows directly is then printed directly behind it, unless its first line would go beyond
the limit of the line. In that case it goes to the next line. Comments and templating tags
never do.

Main results: `Printer.Ready.whole_inlineBy`, `formatMarkup_glues`.
-/

namespace TemplateTidy

/-- The column behind a text. -/
def Text.endColumn (s : Text) : Nat :=
  (Text.firstLine s.reverse).length

/-- Behind a text, the first line of another one goes beyond the limit of the line. -/
def MarkupOptions.Overflows (o : MarkupOptions) (before t : Text) : Prop :=
  o.wrapLineLength ≠ 0 ∧ o.wrapLineLength < (before.endColumn + (Text.firstLine t).length : Int)

instance (o : MarkupOptions) (before t : Text) : Decidable (o.Overflows before t) :=
  inferInstanceAs (Decidable (_ ∧ _))

/-! ## A printer behind something that flows -/

namespace Printer

variable {o : MarkupOptions} {p : Printer}

/-- The line has content, no white space has been noted, and what comes next does not have to
start a line. -/
structure Ready (p : Printer) : Prop where
  content : p.hasContent = true
  still : p.Still
  along : p.breakNext = false

/-- Whether a printer is ready does not depend on the depth. -/
theorem Ready.withDepth (h : p.Ready) (depth : Int) : Ready { p with depth := depth } :=
  ⟨h.content, h.still, h.along⟩

/-- The column is counted from the last line feed. -/
theorem column_eq (p : Printer) : p.column = p.whole.endColumn := by
  rw [column, Text.endColumn, whole, List.reverse_append, List.reverse_reverse]
  cases p.lines with
  | nil => simp
  | cons l lines =>
    have hfeed : (finished (l :: lines)).reverse = '\n' :: (finished lines ++ l).reverse := by
      simp
    rw [hfeed, Text.firstLine, Text.firstLine, List.takeWhile_append]
    split
    · rename_i hall
      simpa using hall
    · rfl

/-- Placing something uses up the white space that was noted. -/
theorem still_place (o : MarkupOptions) (p : Printer) (block atom : Bool) :
    (p.place o block atom).1.Still := by
  unfold place
  dsimp only
  split
  · split
    · exact still_settled p
    · exact still_settled p
  · split
    · exact still_settled p
    · exact still_settled p

/-- Behind what flows no white space is noted. -/
theorem still_inlineBy (o : MarkupOptions) (p : Printer) (render : Nat → Text)
    (atom wrappable : Bool) : (p.inlineBy o render atom wrappable).Still := by
  have hplace := still_place o p false atom
  unfold inlineBy
  dsimp only
  split
  · exact hplace
  · exact hplace.spaced _

/-- What flows ends its line with a letter, if it is printed so. -/
theorem inked_inlineBy (o : MarkupOptions) (p : Printer) {render : Nat → Text}
    (hrender : ∀ column, (render column).Tight ∧ ¬ (render column).Blank)
    (atom wrappable : Bool) : (p.inlineBy o render atom wrappable).Inked := by
  unfold inlineBy
  dsimp only
  split
  · exact inked_write _ (hrender _).2 (hrender _).1
  · exact inked_write _ (hrender _).2 (hrender _).1

/-- On a new line, what is written stands behind the solid part. -/
theorem whole_write_newline (hcontent : p.hasContent = true) (t : Text) :
    ((p.newline 0).write o t).whole = p.solid ++ '\n' :: o.indent p.depth ++ t := by
  have hsolid : p.solid = finished p.lines ++ Text.trimRight p.line.reverse := by
    rw [solid, whole, Text.trimRight_append (not_blank_line hcontent)]
  have hlines : (p.newline 0).lines = Text.trimRight p.line.reverse :: p.lines := by
    rw [lines_newline, linesNow_of_content hcontent]
    simp
  have hempty : (p.newline 0).hasContent = false := rfl
  rw [whole, write, hempty]
  dsimp only
  rw [hlines, finished_cons, hsolid]
  simp [newline]

/-- Something fits on the line exactly if it does not overflow behind what has been printed. -/
theorem fits_iff (hcontent : p.hasContent = true) (t : Text) :
    p.fits o false t = true ↔ ¬ o.Overflows p.whole t := by
  rw [fits, hcontent, p.column_eq, MarkupOptions.Overflows]
  simp only [Bool.not_true, Bool.or_false, Bool.or_eq_true, beq_iff_eq, decide_eq_true_eq,
    Bool.toNat_false, Nat.cast_zero, add_zero]
  omega

/-- **What flows is printed directly behind a printer that is ready**, or on the next line if
it does not fit. -/
theorem Ready.whole_inlineBy (h : p.Ready) (render : Nat → Text) (atom wrappable : Bool) :
    (p.inlineBy o render atom wrappable).whole =
      if wrappable = true ∧ o.Overflows p.whole (render p.whole.endColumn) then
        p.solid ++ '\n' :: o.indent p.depth ++ render (o.indent p.depth).length
      else p.whole ++ render p.whole.endColumn := by
  have hcontent : p.settled.hasContent = true := h.content
  have hplace := Layout.place_still (o := o) h.content h.still h.along atom
  have hcolumn : p.settled.startColumn o false = p.whole.endColumn := by
    rw [startColumn, if_pos hcontent, ← p.column_eq]
    rfl
  have hfits : p.settled.fits o false (render p.whole.endColumn) = true ↔
      ¬ o.Overflows p.whole (render p.whole.endColumn) :=
    fits_iff hcontent _
  split
  · -- it does not fit and may go to the next line
    rename_i hwraps
    have hmisfit : (wrappable && !p.settled.fits o false (render p.whole.endColumn)) = true := by
      rw [hwraps.1, Bool.true_and, Bool.not_eq_true', ← Bool.not_eq_true, hfits, not_not]
      exact hwraps.2
    have hempty : (p.settled.newline 0).hasContent = false := rfl
    have hindent : (p.settled.newline 0).startColumn o false = (o.indent p.depth).length := by
      rw [startColumn, hempty]
      rfl
    rw [inlineBy_wraps hplace (by rw [hcolumn]; exact hmisfit), hindent]
    exact whole_write_newline hcontent _
  · -- it goes on in this line
    rename_i hstays
    have hfit : (wrappable && !p.settled.fits o false (render p.whole.endColumn)) = false := by
      rw [Bool.and_eq_false_iff, Bool.not_eq_false', hfits]
      cases wrappable with
      | false => exact .inl rfl
      | true => exact .inr fun hover => hstays ⟨rfl, hover⟩
    rw [inlineBy_fits hplace (by rw [hcolumn]; exact hfit), hcolumn, spaced,
      if_neg Bool.false_ne_true, write, if_pos hcontent]
    simp [whole, settled]

end Printer

/-! ## Imprints that flow -/

namespace Imprint

/-- The imprint flows with the text. -/
def flows : Imprint → Bool
  | word _ | item (.comment _) | item (.template _) => true
  | item (.startTag tag) => Element.isInline tag.name
  | item (.endTag _ name) => Element.isInline name
  | _ => false

/-- The imprint starts a line wherever the source has a line break before it, and it does not
go to the next line. -/
def isAtom : Imprint → Bool
  | item (.comment _) | item (.template _) => true
  | _ => false

/-- What is printed of the imprint at a depth and a column. -/
def renderAt (o : MarkupOptions) (depth : Int) : Imprint → Nat → Text
  | item (.startTag tag), column => tag.render o depth column
  | x, _ => x.raw

/-- An imprint yields what is printed of it anywhere. -/
theorem yields_renderAt (o : MarkupOptions) (depth : Int) (x : Imprint) (column : Nat) :
    x.Yields o (x.renderAt o depth column) := by
  by_cases htag : ∃ tag, x = item (.startTag tag)
  · obtain ⟨tag, rfl⟩ := htag
    exact ⟨depth, column, rfl⟩
  · rw [yields_iff fun tag heq => htag ⟨tag, heq⟩]
    unfold renderAt
    split
    · exact absurd ⟨_, rfl⟩ htag
    · rfl

/-- What flows is placed on its own. -/
theorem isPlaced_of_flows {x : Imprint} (h : x.flows = true) : x.isPlaced = true := by
  cases x with
  | item i =>
    cases i with
    | body raw name => cases h
    | _ => rfl
  | gap s => cases h
  | _ => rfl

/-- An imprint that flows is printed at some depth. -/
theorem exists_inlineBy (o : MarkupOptions) (l : Layout) {x : Imprint} (hx : x.flows = true) :
    ∃ depth depth' : Int, (x.step o l).printer =
      { Printer.inlineBy o { l.printer with depth := depth } (x.renderAt o depth) x.isAtom
          (!x.isAtom) with depth := depth' } := by
  cases x with
  | word s => exact ⟨l.printer.depth, _, rfl⟩
  | gap s => cases hx
  | blockTag s => cases hx
  | item i =>
    cases i with
    | comment raw => exact ⟨l.printer.depth, _, rfl⟩
    | template raw => exact ⟨l.printer.depth, _, rfl⟩
    | startTag tag =>
      have hinline : Element.isInline tag.name = true := hx
      -- an element that the tag closes only changes the depth
      obtain ⟨depth, stack, -, hclosed, -⟩ := Layout.exists_closed l tag.name
      refine ⟨depth, ?_⟩
      rw [step, Layout.step, Layout.onStart_eq, hclosed, Layout.print]
      dsimp only
      rw [if_pos hinline, Layout.printInlineStart_eq, Layout.opened]
      split
      · exact ⟨_, rfl⟩
      · exact ⟨_, rfl⟩
    | endTag raw name =>
      have hinline : Element.isInline name = true := hx
      -- whether or not an element is closed, the tag is printed in the same way
      rw [step, Layout.step, Layout.onEnd]
      cases Layout.unwind? name l.printer.depth l.stack with
      | none =>
        refine ⟨l.printer.depth, (l.printer.inline o raw false true).depth, ?_⟩
        dsimp only [Layout.print]
        rw [if_pos hinline]
        rfl
      | some found =>
        obtain ⟨e, rest, depth⟩ := found
        refine ⟨depth, (Printer.inline o { l.printer with depth := depth } raw false true).depth,
          ?_⟩
        dsimp only
        rw [if_pos hinline]
        rfl
    | _ => cases hx

/-- The imprint does not fit behind a text. -/
def Wraps (o : MarkupOptions) (depth : Int) (before : Text) (x : Imprint) : Prop :=
  !x.isAtom ∧ o.Overflows before (x.renderAt o depth before.endColumn)

instance (o : MarkupOptions) (depth : Int) (before : Text) (x : Imprint) :
    Decidable (x.Wraps o depth before) :=
  inferInstanceAs (Decidable (_ ∧ _))

/-- Behind an imprint that flows and is finished, the printer stands at a letter and is
ready. -/
theorem ready_step {o : MarkupOptions} (ho : o.IndentsBlank) (l : Layout) {x : Imprint}
    (hformed : x.Formed) (hx : x.flows = true)
    (hclosed : x.isMarkup = true → x.raw.getLast? = some '>') :
    (x.step o l).printer.Inked ∧ (x.step o l).printer.Ready := by
  obtain ⟨depth, depth', hprinter⟩ := exists_inlineBy o l hx
  have hplaced := isPlaced_of_flows hx
  have hrender : ∀ column,
      (x.renderAt o depth column).Tight ∧ ¬ (x.renderAt o depth column).Blank := by
    intro column
    have hyields := yields_renderAt o depth x column
    exact ⟨tight_of_yields ho hformed hplaced hclosed hyields,
      not_blank_of_yields ho hformed hplaced hyields⟩
  have hinked := Printer.inked_inlineBy o { l.printer with depth := depth } hrender x.isAtom
    (!x.isAtom)
  rw [hprinter]
  exact ⟨hinked, hinked.hasContent, Printer.still_inlineBy .., Layout.breakNext_inlineBy ..⟩

/-- What flows is printed directly behind a printer that is ready, or on the next line. -/
theorem whole_step {o : MarkupOptions} {l : Layout} (h : l.printer.Ready) {y : Imprint}
    (hy : y.flows = true) :
    ∃ depth, (y.step o l).printer.whole =
      if y.Wraps o depth l.printer.whole then
        l.printer.solid ++ '\n' :: o.indent depth ++ y.renderAt o depth (o.indent depth).length
      else l.printer.whole ++ y.renderAt o depth l.printer.whole.endColumn := by
  obtain ⟨depth, depth', hprinter⟩ := exists_inlineBy o l hy
  have hwhole := (h.withDepth depth).whole_inlineBy (o := o) (y.renderAt o depth) y.isAtom
    (!y.isAtom)
  exact ⟨depth, (congrArg Printer.whole hprinter).trans hwhole⟩

end Imprint

/-! ## Glued imprints -/

/-- The row adheres to the text before it: it is printed directly behind that, or on the next
line if it does not fit. -/
def Row.Adheres (o : MarkupOptions) (before : Text) (x : Row) : Prop :=
  ∃ depth,
    if x.imprint.Wraps o depth before then
      x.pad = '\n' :: o.indent depth ∧
        x.text = Text.trimRight (x.imprint.renderAt o depth (o.indent depth).length)
    else
      x.pad = [] ∧ x.text = Text.trimRight (x.imprint.renderAt o depth before.endColumn)

/-- An imprint that flows makes a row that adheres. -/
theorem Standing.exists_row_adheres {o : MarkupOptions} (ho : o.IndentsBlank)
    {last : Option Char} {l : Layout} (h : Standing last [] l.printer)
    (hinked : l.printer.Inked) (hready : l.printer.Ready) {y : Imprint} (hformed : y.Formed)
    (hy : y.flows = true) {final : Prop}
    (hclosed : y.isMarkup = true → y.raw.getLast? = some '>' ∨ final) :
    ∃ row : Row, row.imprint = y ∧ row.Adheres o l.printer.solid ∧
      row.Extends o [] final l.printer (y.step o l).printer := by
  obtain ⟨depth, hwhole⟩ := Imprint.whole_step (o := o) hready hy
  have hplaced := Imprint.isPlaced_of_flows hy
  rw [← hinked.solid_eq] at hwhole
  have hblank := ho.indent depth
  split at hwhole
  · -- the row begins a line of its own
    rename_i hwraps
    have hpad : Text.Blank ('\n' :: o.indent depth) := Text.blank_cons.mpr ⟨by decide, hblank⟩
    refine ⟨_, rfl, ⟨depth, ?_⟩, h.extends ho hformed hplaced hclosed
      (Imprint.yields_renderAt o depth y _) hpad hwhole fun _ hrest => absurd rfl hrest⟩
    dsimp only
    rw [if_pos hwraps]
    exact ⟨rfl, rfl⟩
  · -- the row has no white space in front
    rename_i hstays
    have hglued : (y.step o l).printer.whole =
        l.printer.solid ++ [] ++ y.renderAt o depth l.printer.solid.endColumn := by
      rw [List.append_nil, hwhole]
    refine ⟨_, rfl, ⟨depth, ?_⟩, h.extends ho hformed hplaced hclosed
      (Imprint.yields_renderAt o depth y _) Text.blank_nil hglued fun _ hrest => absurd rfl hrest⟩
    dsimp only
    rw [if_neg hstays]
    exact ⟨rfl, rfl⟩

/-- **Glued content stays glued.** Under an indentation of white space whose width lies below
the limit of machine words, the formatter gives a result exactly if the markup is blank or the
indentation can be made. Where two imprints that flow follow each other directly, nothing is
printed between them, unless the second is a word or a tag that does not fit on the line of the
first. Then it is printed on the next line, behind the indentation. -/
theorem formatMarkup_glues {o : MarkupOptions} (ho : o.IndentsBlank)
    (hsize : o.indentSize < 2 ^ 63) {s : Text} {xs ys : List Imprint} {x y : Imprint}
    (himprints : imprintsOf o s = xs ++ x :: y :: ys) (hx : x.flows = true)
    (hy : y.flows = true) :
    ((∃ out, formatMarkup o s = .ok out) ↔
        s.Blank ∨ (-2 ^ 63 ≤ o.indentSize ∧ o.indentSize * o.indentChar.length < 2 ^ 63)) ∧
      ∀ out, formatMarkup o s = .ok out →
        ∃ (rows : List Row) (a b : Row) (rows' : List Row) (rest feed : Text),
        s = Row.source (rows ++ a :: b :: rows') ++ rest ∧ rest.Blank ∧
        out = Row.printed (rows ++ a :: b :: rows') ++ feed ∧ feed.Blank ∧
        rows.map Row.imprint = xs.filter (fun x => !x.isGap) ∧ a.imprint = x ∧ b.imprint = y ∧
        rows'.map Row.imprint = ys.filter (fun x => !x.isGap) ∧
        Row.Laid o False (rows ++ a :: b :: rows') ∧
        b.gap = [] ∧ b.Adheres o (Row.printed (rows ++ [a])) := by
  refine ⟨exists_formatMarkup_iff_of_lt hsize s, fun out hout => ?_⟩
  obtain ⟨feed, hfeed, rfl⟩ := formatMarkup_eq_solid ho hout
  have hfollows := follows_imprintsOf o s
  rw [himprints] at hfollows ⊢
  rw [List.foldl_append, List.foldl_cons, List.foldl_cons]
  -- the run up to the first of the two
  obtain ⟨rows, rest, hrows⟩ := Reaches.run ho standing_start hfollows
  obtain ⟨last, hstanding, hformed, -, hclosed, hformed', -, hclosed', hmore⟩ := hrows.standing
  generalize List.foldl (Imprint.step o) {} xs = l at hrows hstanding ⊢
  obtain ⟨hinked, hready⟩ := Imprint.ready_step ho l hformed hx
    fun h => (hclosed h).resolve_right (List.cons_ne_nil y ys)
  have hplaced := Imprint.isPlaced_of_flows hx
  have hplaced' := Imprint.isPlaced_of_flows hy
  -- the rows of the two imprints, and of what follows
  obtain ⟨a, rfl, ha⟩ := hstanding.exists_row ho hformed hplaced hclosed
  obtain ⟨b, rfl, hadheres, hb⟩ :=
    Standing.exists_row_adheres ho (ha.standing : Standing none [] _) hinked hready hformed' hy
      hclosed'
  obtain ⟨rows', rest', hrows'⟩ := Composed.run ho hb.standing hmore
  rw [Imprint.isPlaced, Bool.and_eq_true, Bool.not_eq_true'] at hplaced hplaced'
  have hall := hrows.composed
    ((hrows'.cons hb Text.blank_nil hplaced'.1).cons ha hstanding.blank hplaced.1)
  have hstart : ({} : Layout).printer.solid = [] := rfl
  have hbefore : (a.imprint.step o l).printer.solid = Row.printed (rows ++ [a]) := by
    rw [ha.solid_eq, hrows.solid_eq, hstart]
    simp
  rw [hbefore] at hadheres
  refine ⟨rows, a, b, rows', rest', feed, ?_, hall.blank, ?_, hfeed, hrows.imprints, rfl, rfl,
    hrows'.imprints, hall.laid.imp False.elim, hb.gap_eq, hadheres⟩
  · rw [← hall.source_eq, ← himprints, rawOf_imprintsOf, List.nil_append]
  · rw [hall.solid_eq, hstart, List.nil_append]

/-- A word and the tag of an inline element behind it. -/
theorem formatMarkup_glues_bold :
    let s : Text := "<p>ab<b>c</b> d</p>".toList
    let bold : Imprint := .item (.startTag ⟨"<b>".toList, "b".toList, false, false⟩)
    formatMarkup {} s = .ok s ∧
      ∃ (rows : List Row) (a b : Row) (rows' : List Row) (rest feed : Text),
      s = Row.source (rows ++ a :: b :: rows') ++ rest ∧ rest.Blank ∧
      s = Row.printed (rows ++ a :: b :: rows') ++ feed ∧ feed.Blank ∧
      a.imprint = .word "ab".toList ∧ b.imprint = bold ∧ b.gap = [] ∧
      b.Adheres {} (Row.printed (rows ++ [a])) := by
  intro s bold
  have hout : formatMarkup {} s = .ok s := by decide +kernel
  have himprints : imprintsOf {} s =
      [Imprint.item (.startTag ⟨"<p>".toList, "p".toList, false, false⟩)] ++
        Imprint.word "ab".toList :: bold ::
          [.word "c".toList, .item (.endTag "</b>".toList "b".toList), .gap " ".toList,
            .word "d".toList, .item (.endTag "</p>".toList "p".toList)] := by
    decide +kernel
  obtain ⟨-, hglues⟩ := formatMarkup_glues (by decide) (by decide) himprints rfl (by decide)
  obtain ⟨rows, a, b, rows', rest, feed, hsource, hrest, hprinted, hfeed, -, ha, hb, -, -, hgap,
    hadheres⟩ := hglues s hout
  exact ⟨hout, rows, a, b, rows', rest, feed, hsource, hrest, hprinted, hfeed, ha, hb, hgap,
    hadheres⟩

/-- A tag that does not fit behind the word to which it is glued goes to the next line; and
with indentation beyond machine words nothing is printed. -/
theorem formatMarkup_divides_glued :
    let narrow : MarkupOptions := { wrapLineLength := 10 }
    let o : MarkupOptions := { indentSize := -2 ^ 63 - 1 }
    let s : Text := "aaaaaaaa<b>x</b>".toList
    let bold : Imprint := .item (.startTag ⟨"<b>".toList, "b".toList, false, false⟩)
    (narrow.IndentsBlank ∧ narrow.indentHandlebars = false ∧
        imprintsOf narrow s = Imprint.word "aaaaaaaa".toList :: bold ::
          [.word "x".toList, .item (.endTag "</b>".toList "b".toList)] ∧
        bold.flows = true ∧ formatMarkup narrow s = .ok "aaaaaaaa\n<b>x</b>".toList) ∧
      o.IndentsBlank ∧ o.indentSize < 2 ^ 63 ∧ ∀ out, formatMarkup o s ≠ .ok out := by
  intro narrow o s bold
  have hfault : formatMarkup o s = .error .widthOutOfRange := by decide +kernel
  refine ⟨⟨by decide, rfl, by decide +kernel, by decide, by decide +kernel⟩, by decide, by decide,
    fun out h => ?_⟩
  rw [hfault] at h
  cases h

end TemplateTidy
