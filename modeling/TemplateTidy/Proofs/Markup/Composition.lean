import TemplateTidy.Proofs.Markup.Imprint
import TemplateTidy.Proofs.Markup.Solids

/-!
# How the layout is composed

A composition sets side by side what stands in the source and what stands in print. Each of
its rows is an imprint with the white space before it: that of the source, and the pad that
is printed. The rows are the imprints of the markup in their order. They account for the
whole source, and for the whole print, but for white space at the end.

Between two rows there is a pad wherever there is white space in the source. What is printed
of an imprint is the imprint itself, or a rendering of a start tag; only content that is not
read as markup, and an item that is left unfinished, lose white space at their end.

Main results: `Composed.run`, `formatMarkup_composes`.
-/

namespace TemplateTidy

/-- An imprint in print. -/
structure Row where
  /-- The white space before it in the source. -/
  gap : Text
  /-- The white space that is printed before it. -/
  pad : Text
  imprint : Imprint
  text : Text

namespace Row

/-- What rows stand for in the source. -/
def source (rows : List Row) : Text :=
  rows.flatMap fun x => x.gap ++ x.imprint.raw

/-- What is printed of rows. -/
def printed (rows : List Row) : Text :=
  rows.flatMap fun x => x.pad ++ x.text

@[simp] theorem source_nil : source [] = [] := rfl

@[simp] theorem source_cons (x : Row) (rows : List Row) :
    source (x :: rows) = x.gap ++ x.imprint.raw ++ source rows := rfl

@[simp] theorem source_append (a b : List Row) : source (a ++ b) = source a ++ source b :=
  List.flatMap_append

@[simp] theorem printed_nil : printed [] = [] := rfl

@[simp] theorem printed_cons (x : Row) (rows : List Row) :
    printed (x :: rows) = x.pad ++ x.text ++ printed rows := rfl

@[simp] theorem printed_append (a b : List Row) : printed (a ++ b) = printed a ++ printed b :=
  List.flatMap_append

/-- What is printed of the imprint: what it yields, or that without white space at its end.
The latter happens to content only, and to the last imprint if it is left unfinished. -/
def Shows (o : MarkupOptions) (x : Row) (last : Prop) : Prop :=
  x.imprint.Yields o x.text ∨
    (x.imprint.isBody = true ∨ last ∧ x.imprint.raw.getLast? ≠ some '>') ∧
      ∃ t, x.imprint.Yields o t ∧ x.text = Text.trimRight t

/-- Rows are laid out: behind others, if `started`. Between two rows there is a pad wherever
there is white space in the source. -/
def Laid (o : MarkupOptions) (started : Prop) : List Row → Prop
  | [] => True
  | x :: rows =>
    x.gap.Blank ∧ x.pad.Blank ∧ (started → x.gap ≠ [] → x.pad ≠ []) ∧ x.Shows o (rows = []) ∧
    Laid o True rows

end Row

/-! ## One more imprint -/

/-- The printer stands behind a character of the source and white space. That is owed, and
behind a bracket there is none. -/
structure Standing (last : Option Char) (rest : Text) (p : Printer) : Prop where
  neat : p.Neat
  blank : rest.Blank
  owes : rest ≠ [] → p.Owes
  behind : last = some '>' → rest = [] ∧ p.solid ≠ []

section

variable {o : MarkupOptions} {last : Option Char} {rest : Text} {l : Layout} {x : Imprint}

/-- White space that is noted is owed. -/
theorem Standing.gap (h : Standing last rest l.printer) {s : Text} (hs : s.Blank) :
    Standing s.getLast? (rest ++ s) ((Imprint.gap s).step o l).printer where
  neat := h.neat
  blank := Text.blank_append.mpr ⟨h.blank, hs⟩
  owes _ := .inl rfl
  behind hlast := by
    have hchar := hs.of_mem (List.mem_of_getLast? hlast)
    exact absurd hchar (by decide)

/-- A row is printed behind what has been printed. -/
structure Row.Extends (o : MarkupOptions) (row : Row) (rest : Text) (final : Prop)
    (p q : Printer) : Prop where
  gap_eq : row.gap = rest
  blank : row.pad.Blank
  owed : p.solid ≠ [] → rest ≠ [] → row.pad ≠ []
  shown : row.Shows o final
  solid_eq : q.solid = p.solid ++ row.pad ++ row.text
  started : q.solid ≠ []
  neat : q.Neat

/-- Behind a row the printer stands with nothing owed. -/
theorem Row.Extends.standing {row : Row} {final : Prop} {p q : Printer} {last : Option Char}
    (h : row.Extends o rest final p q) : Standing last [] q :=
  ⟨h.neat, Text.blank_nil, fun hrest => absurd rfl hrest, fun _ => ⟨rfl, h.started⟩⟩

/-- What is printed of an imprint makes a row, with the pad before it. -/
theorem Standing.extends (ho : o.IndentsBlank) (h : Standing last rest l.printer)
    (hx : x.Formed) (hplaced : x.isPlaced = true) {final : Prop}
    (hclosed : x.isMarkup = true → x.raw.getLast? = some '>' ∨ final) {pad t : Text}
    (ht : x.Yields o t) (hpad : pad.Blank)
    (hwhole : (x.step o l).printer.whole = l.printer.solid ++ pad ++ t)
    (howed : l.printer.solid ≠ [] → rest ≠ [] → pad ≠ []) :
    Row.Extends o ⟨rest, pad, x, Text.trimRight t⟩ rest final l.printer (x.step o l).printer := by
  obtain ⟨_, _, hprints⟩ := Imprint.prints_step ho l hx hplaced
  have hblank := Imprint.not_blank_of_yields ho hx hplaced ht
  have hsolid : (x.step o l).printer.solid = l.printer.solid ++ pad ++ Text.trimRight t := by
    rw [Printer.solid, hwhole, Text.trimRight_append hblank]
  refine ⟨rfl, hpad, howed, ?_, hsolid, ?_, hprints.neat h.neat⟩
  · by_cases hend : x.isMarkup = true → x.raw.getLast? = some '>'
    · -- a finished imprint ends in a letter
      have htight := Imprint.tight_of_yields ho hx hplaced hend ht
      exact .inl (by rw [htight]; exact ht)
    · rw [Classical.not_imp] at hend
      exact .inr ⟨.inr ⟨(hclosed hend.1).resolve_left hend.2, hend.2⟩, t, ht, rfl⟩
  · rw [hsolid]
    have hne : Text.trimRight t ≠ [] := fun h => hblank (Text.trimRight_eq_nil_iff.mp h)
    simp [hne]

/-- An imprint that is placed makes a row. -/
theorem Standing.exists_row (ho : o.IndentsBlank) (h : Standing last rest l.printer)
    (hx : x.Formed) (hplaced : x.isPlaced = true) {final : Prop}
    (hclosed : x.isMarkup = true → x.raw.getLast? = some '>' ∨ final) :
    ∃ row : Row, row.imprint = x ∧ row.Extends o rest final l.printer (x.step o l).printer := by
  obtain ⟨t, ht, hprints⟩ := Imprint.prints_step ho l hx hplaced
  obtain ⟨pad, hpad, hwhole, howes⟩ := hprints.whole_eq
  exact ⟨⟨rest, pad, x, Text.trimRight t⟩, rfl, h.extends ho hx hplaced hclosed ht hpad hwhole
    fun hstarted hrest => howes (h.owes hrest) hstarted⟩

/-- The content of an element is an item. -/
theorem Imprint.exists_body {x : Imprint} (h : x.isBody = true) :
    ∃ raw name, x = .item (.body raw name) := by
  cases x with
  | item i =>
    cases i with
    | body raw name => exact ⟨raw, name, rfl⟩
    | _ => cases h
  | _ => cases h

/-- So does content, which is put behind its start tag. -/
theorem Standing.exists_row_body (h : Standing (some '>') rest l.printer)
    (hbody : x.isBody = true) (final : Prop) :
    ∃ row : Row, row.imprint = x ∧ row.Extends o rest final l.printer (x.step o l).printer := by
  obtain ⟨rfl, hstarted⟩ := h.behind rfl
  obtain ⟨raw, name, rfl⟩ := Imprint.exists_body hbody
  have hwhole : ((Imprint.item (.body raw name)).step o l).printer.whole =
      l.printer.solid ++ (l.printer.gap ++ raw) := by
    rw [← List.append_assoc, Printer.solid_append_gap]
    simp [Imprint.step, Layout.step, Layout.print, Printer.whole, Printer.glue]
  -- blank content only adds to the white space at the end
  obtain ⟨pad, hpad, hsolid⟩ : ∃ pad : Text, pad.Blank ∧
      ((Imprint.item (.body raw name)).step o l).printer.solid =
        l.printer.solid ++ pad ++ Text.trimRight raw := by
    rw [Printer.solid, hwhole]
    by_cases hraw : raw.Blank
    · have hblank : (l.printer.gap ++ raw).Blank :=
        Text.blank_append.mpr ⟨l.printer.blank_gap, hraw⟩
      refine ⟨[], Text.blank_nil, ?_⟩
      rw [Text.trimRight_append_blank hblank, Text.trimRight_eq_nil_iff.mpr hraw,
        show Text.trimRight l.printer.solid = l.printer.solid from Text.tight_trimRight _]
      simp
    · refine ⟨l.printer.gap, l.printer.blank_gap, ?_⟩
      rw [← List.append_assoc, Text.trimRight_append hraw]
  refine ⟨⟨[], pad, _, Text.trimRight raw⟩, rfl, rfl, hpad, fun _ h => absurd rfl h,
    .inr ⟨.inl rfl, raw, rfl, rfl⟩, hsolid, ?_, h.neat⟩
  rw [hsolid]
  simp [hstarted]

end

/-! ## Any number of imprints -/

/-- Being the last row only allows for more. -/
theorem Row.Shows.imp {o : MarkupOptions} {x : Row} {final final' : Prop} (h : x.Shows o final)
    (himp : final → final') : x.Shows o final' :=
  h.imp_right fun ⟨hloses, ht⟩ => ⟨hloses.imp_right fun ⟨hfinal, hopen⟩ => ⟨himp hfinal, hopen⟩, ht⟩

/-- Rows that are laid out behind others are so at the beginning, too. -/
theorem Row.Laid.imp {o : MarkupOptions} {started started' : Prop} {rows : List Row}
    (h : Laid o started rows) (himp : started' → started) : Laid o started' rows := by
  cases rows with
  | nil => trivial
  | cons x rows =>
    obtain ⟨hgap, hpad, howed, hrest⟩ := h
    exact ⟨hgap, hpad, fun hstarted => howed (himp hstarted), hrest⟩

/-- What is printed of imprints behind others makes rows, and white space is left at the
end. -/
structure Composed (o : MarkupOptions) (xs : List Imprint) (rest : Text) (p q : Printer)
    (rows : List Row) (rest' : Text) : Prop where
  source_eq : rest ++ Imprint.rawOf xs = Row.source rows ++ rest'
  solid_eq : q.solid = p.solid ++ Row.printed rows
  imprints : rows.map Row.imprint = xs.filter fun x => !x.isGap
  laid : Row.Laid o (p.solid ≠ []) rows
  blank : rest'.Blank
  neat : q.Neat

/-- **One more row in front.** -/
theorem Composed.cons {o : MarkupOptions} {xs : List Imprint} {rest rest' : Text}
    {p q r : Printer} {row : Row} {rows : List Row} (h : Composed o xs [] q r rows rest')
    (hrow : row.Extends o rest (xs = []) p q) (hrest : rest.Blank)
    (hgap : row.imprint.isGap = false) :
    Composed o (row.imprint :: xs) rest p r (row :: rows) rest' where
  source_eq := by
    have hsource := h.source_eq
    rw [List.nil_append] at hsource
    rw [Row.source_cons, Imprint.rawOf_cons, hrow.gap_eq, hsource]
    simp only [List.append_assoc]
  solid_eq := by
    rw [h.solid_eq, hrow.solid_eq, Row.printed_cons]
    simp only [List.append_assoc]
  imprints := by
    rw [List.map_cons, List.filter_cons_of_pos (by simp [hgap]), h.imprints]
  laid := by
    refine ⟨by rwa [hrow.gap_eq], hrow.blank, by rw [hrow.gap_eq]; exact hrow.owed, ?_,
      h.laid.imp fun _ => hrow.started⟩
    -- a row at the end of the imprints is the last row
    refine hrow.shown.imp fun hxs => ?_
    have himprints := h.imprints
    rw [hxs] at himprints
    exact List.map_eq_nil_iff.mp himprints
  blank := h.blank
  neat := h.neat

/-- No imprints make no rows. -/
theorem Composed.nil {last : Option Char} {rest : Text} {p : Printer} (o : MarkupOptions)
    (h : Standing last rest p) : Composed o [] rest p p [] rest :=
  ⟨by simp [Imprint.rawOf], by simp, rfl, trivial, h.blank, h.neat⟩

/-- White space is noted. -/
theorem Composed.gap {o : MarkupOptions} {s rest rest' : Text} {xs : List Imprint} {l : Layout}
    {r : Printer} {rows : List Row}
    (h : Composed o xs (rest ++ s) ((Imprint.gap s).step o l).printer r rows rest') :
    Composed o (.gap s :: xs) rest l.printer r rows rest' := by
  refine ⟨?_, h.solid_eq, h.imprints, h.laid, h.blank, h.neat⟩
  rw [← h.source_eq, List.append_assoc]
  rfl

/-- The way through imprints that others follow: whatever rows those make come behind the
rows of these. -/
structure Reaches (o : MarkupOptions) (xs ys : List Imprint) (rest : Text) (p q : Printer)
    (rows : List Row) (rest' : Text) : Prop where
  solid_eq : q.solid = p.solid ++ Row.printed rows
  imprints : rows.map Row.imprint = xs.filter fun x => !x.isGap
  standing : ∃ last, Standing last rest' q ∧ Imprint.Follows last ys
  composed : ∀ {r rows' rest''}, Composed o ys rest' q r rows' rest'' →
    Composed o (xs ++ ys) rest p r (rows ++ rows') rest''

/-- **One more row in front**, with imprints to follow. -/
theorem Reaches.cons {o : MarkupOptions} {xs ys : List Imprint} {rest rest' : Text}
    {p q r : Printer} {row : Row} {rows : List Row} (h : Reaches o xs ys [] q r rows rest')
    (hrow : row.Extends o rest (xs ++ ys = []) p q) (hrest : rest.Blank)
    (hgap : row.imprint.isGap = false) :
    Reaches o (row.imprint :: xs) ys rest p r (row :: rows) rest' where
  solid_eq := by
    rw [h.solid_eq, hrow.solid_eq, Row.printed_cons]
    simp only [List.append_assoc]
  imprints := by
    rw [List.map_cons, List.filter_cons_of_pos (by simp [hgap]), h.imprints]
  standing := h.standing
  composed hys := (h.composed hys).cons hrow hrest hgap

/-- **Imprints are composed** one after the other, whatever follows. -/
theorem Reaches.run {o : MarkupOptions} (ho : o.IndentsBlank) {xs ys : List Imprint}
    {last : Option Char} {rest : Text} {l : Layout} (h : Standing last rest l.printer)
    (hxs : Imprint.Follows last (xs ++ ys)) :
    ∃ rows rest', Reaches o xs ys rest l.printer (xs.foldl (Imprint.step o) l).printer rows
      rest' := by
  induction xs generalizing last rest l with
  | nil => exact ⟨[], rest, by simp, rfl, ⟨last, h, hxs⟩, id⟩
  | cons x xs ih =>
    obtain ⟨hformed, hbody, hclosed, hmore⟩ := hxs
    rw [List.foldl_cons]
    cases hgap : x.isGap with
    | true =>
      obtain ⟨s, rfl⟩ : ∃ s, x = .gap s := by
        cases x with
        | gap s => exact ⟨s, rfl⟩
        | _ => cases hgap
      -- white space prints nothing, it is owed to the next row
      obtain ⟨rows, rest', hrows⟩ := ih (h.gap hformed.1) hmore
      exact ⟨rows, rest', hrows.solid_eq, hrows.imprints, hrows.standing,
        fun hys => (hrows.composed hys).gap⟩
    | false =>
      obtain ⟨row, rfl, hrow⟩ : ∃ row : Row, row.imprint = x ∧
          row.Extends o rest (xs ++ ys = []) l.printer (x.step o l).printer := by
        cases hplain : x.isBody with
        | true =>
          -- the last character was the bracket of the start tag
          rw [hbody hplain] at h
          exact h.exists_row_body hplain _
        | false => exact h.exists_row ho hformed (by simp [Imprint.isPlaced, hgap, hplain]) hclosed
      obtain ⟨rows, rest', hrows⟩ := ih hrow.standing hmore
      exact ⟨row :: rows, rest', hrows.cons hrow h.blank hgap⟩

/-- All imprints are composed behind whatever has been printed. -/
theorem Composed.run {o : MarkupOptions} (ho : o.IndentsBlank) {xs : List Imprint}
    {last : Option Char} {rest : Text} {l : Layout} (h : Standing last rest l.printer)
    (hxs : Imprint.Follows last xs) :
    ∃ rows rest', Composed o xs rest l.printer (xs.foldl (Imprint.step o) l).printer rows
      rest' := by
  rw [← List.append_nil xs] at hxs
  obtain ⟨rows, rest', hrows⟩ := Reaches.run ho h hxs
  obtain ⟨_, hstanding, _⟩ := hrows.standing
  have hcomposed := hrows.composed (Composed.nil o hstanding)
  rw [List.append_nil, List.append_nil] at hcomposed
  exact ⟨rows, rest', hcomposed⟩

/-! ## The markup as a whole -/

/-- At the beginning the printer stands behind nothing. -/
theorem standing_start : Standing none [] ({} : Layout).printer :=
  ⟨fun _ hl => (nomatch hl), Text.blank_nil, fun h => absurd rfl h, fun h => nomatch h⟩

/-- What is printed of markup, but for a line feed at the end, is the solid part of the
print of its imprints. -/
theorem formatMarkup_eq_solid {o : MarkupOptions} (ho : o.IndentsBlank) {s out : Text}
    (h : formatMarkup o s = .ok out) :
    ∃ feed : Text, feed.Blank ∧
      out = ((imprintsOf o s).foldl (Imprint.step o) {}).printer.solid ++ feed := by
  obtain ⟨rows, rest, hrows⟩ := Composed.run ho standing_start (follows_imprintsOf o s)
  unfold formatMarkup at h
  split at h
  · rename_i hblank
    -- nothing but gaps
    have hgaps : ∀ x ∈ imprintsOf o s, x.isGap = true := by
      refine Imprint.isGap_of_blank (follows_imprintsOf o s) (fun h => nomatch h) ?_
      rw [rawOf_imprintsOf]
      exact hblank
    have himprints := hrows.imprints
    rw [List.filter_eq_nil_iff.mpr (by simpa using hgaps), List.map_eq_nil_iff] at himprints
    refine ⟨[], Text.blank_nil, ?_⟩
    rw [hrows.solid_eq, himprints, ← Except.ok.inj h]
    rfl
  · split at h
    · cases h
    · refine ⟨if o.endWithNewline then ['\n'] else [], ?_, ?_⟩
      · split
        · decide
        · exact Text.blank_nil
      · rw [← Printer.join_finish hrows.neat, ← Except.ok.inj h, layoutLines, Layout.run,
          imprintsOf, Imprint.foldl_ofItems]

/-- Under an indent width below the limit of machine words, the formatter gives a result
exactly if the markup is blank or the indentation can be made. -/
theorem exists_formatMarkup_iff_of_lt {o : MarkupOptions} (hsize : o.indentSize < 2 ^ 63)
    (s : Text) :
    (∃ out, formatMarkup o s = .ok out) ↔
      s.Blank ∨ (-2 ^ 63 ≤ o.indentSize ∧ o.indentSize * o.indentChar.length < 2 ^ 63) := by
  have hlimit : MarkupOptions.wordLimit = 2 ^ 63 := by decide
  rw [exists_formatMarkup_iff, MarkupOptions.IndentFits, hlimit]
  simp only [hsize, true_and]

/-- **The layout is a composition of the markup.** Under an indentation of white space whose
width lies below the limit of machine words, the formatter gives a result exactly if the
markup is blank or the indentation can be made. The result is the imprints of the markup in
their order, each printed as it stands or as the start tag is rendered, with pads of white
space before them that are not empty where the source has white space. -/
theorem formatMarkup_composes {o : MarkupOptions} (ho : o.IndentsBlank)
    (hsize : o.indentSize < 2 ^ 63) (s : Text) :
    ((∃ out, formatMarkup o s = .ok out) ↔
        s.Blank ∨ (-2 ^ 63 ≤ o.indentSize ∧ o.indentSize * o.indentChar.length < 2 ^ 63)) ∧
      ∀ out, formatMarkup o s = .ok out → ∃ rows rest feed,
        s = Row.source rows ++ rest ∧ rest.Blank ∧ out = Row.printed rows ++ feed ∧ feed.Blank ∧
        rows.map Row.imprint = (imprintsOf o s).filter (fun x => !x.isGap) ∧
        Row.Laid o False rows := by
  refine ⟨exists_formatMarkup_iff_of_lt hsize s, fun out hout => ?_⟩
  obtain ⟨feed, hfeed, rfl⟩ := formatMarkup_eq_solid ho hout
  obtain ⟨rows, rest, hrows⟩ := Composed.run ho standing_start (follows_imprintsOf o s)
  refine ⟨rows, rest, feed, ?_, hrows.blank, ?_, hfeed, hrows.imprints, ?_⟩
  · rw [← hrows.source_eq, rawOf_imprintsOf, List.nil_append]
  · rw [hrows.solid_eq]
    rfl
  · exact hrows.laid.imp False.elim

/-- Words, a comment and the tags of an element, with white space at its end. -/
theorem formatMarkup_composes_paragraph :
    let s : Text := "<p  a=b>x  y<!-- c --></p>\n".toList
    let out : Text := "<p a=b>x y<!-- c --></p>".toList
    formatMarkup {} s = .ok out ∧ ∃ rows rest feed,
      s = Row.source rows ++ rest ∧ rest.Blank ∧ out = Row.printed rows ++ feed ∧ feed.Blank ∧
      rows.map Row.imprint =
        [.item (.startTag ⟨"<p  a=b>".toList, "p".toList, false, false⟩), .word "x".toList,
          .word "y".toList, .item (.comment "<!-- c -->".toList),
          .item (.endTag "</p>".toList "p".toList)] ∧
      Row.Laid {} False rows := by
  intro s out
  have hout : formatMarkup {} s = .ok out := by decide +kernel
  have himprints : (imprintsOf {} s).filter (fun x => !x.isGap) =
      [.item (.startTag ⟨"<p  a=b>".toList, "p".toList, false, false⟩), .word "x".toList,
        .word "y".toList, .item (.comment "<!-- c -->".toList),
        .item (.endTag "</p>".toList "p".toList)] := by
    decide +kernel
  obtain ⟨-, hcomposes⟩ := formatMarkup_composes (o := {}) (by decide) (by decide) s
  have hrows := hcomposes out hout
  rw [himprints] at hrows
  exact ⟨hout, hrows⟩

/-- Indentation beyond machine words gives no result; and an unfinished start tag that is
copied as it stands loses the white space at its end, so that none of its renderings is
printed. -/
theorem formatMarkup_composes_not_always :
    let o : MarkupOptions := { indentSize := -2 ^ 63 - 1 }
    let tag : StartTag := ⟨"<br  ".toList, "br".toList, true, true⟩
    (o.IndentsBlank ∧ o.indentSize < 2 ^ 63 ∧ ∀ out, formatMarkup o "<p>x</p>".toList ≠ .ok out) ∧
      imprintsOf {} "<br  ".toList = [.item (.startTag tag)] ∧
      formatMarkup {} "<br  ".toList = .ok "<br".toList ∧
      ∀ depth column, ¬ tag.render {} depth column <:+: "<br".toList := by
  intro o tag
  have hfault : formatMarkup o "<p>x</p>".toList = .error .widthOutOfRange := by decide +kernel
  refine ⟨⟨by decide, by decide, fun out h => ?_⟩, by decide +kernel, by decide +kernel,
    fun depth column => ?_⟩
  · rw [hfault] at h
    cases h
  · rw [StartTag.render_of_isKept (by decide)]
    decide

end TemplateTidy
