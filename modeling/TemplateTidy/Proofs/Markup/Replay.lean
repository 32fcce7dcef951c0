import TemplateTidy.Markup.Layout
import TemplateTidy.Proofs.Markup.Printing

/-!
# Printing again

What has been printed is the source of a second run. Before each thing the printer
put a *pad* of white space, and the second run notes that pad where the first noted
the white space of the source. `Replays` says of a way of printing that this comes
to the same: the printer that has the pad noted prints the same pad again.

The only decision that looks at more than the notes is whether a thing still fits on
the line. A thing that was moved to the next line because it did not fit has white
space before it the second time, and so fits even less.

Main results: `Printer.replays_inlineBy`, `Printer.replays_blockBy`,
`Layout.replays_onStart`, `Layout.replays_onEnd`.
-/

namespace TemplateTidy

namespace MarkupOptions

/-- Indentation is white space without line feeds. -/
structure IndentsInLine (o : MarkupOptions) : Prop where
  blank : o.IndentsBlank
  noFeed : '\n' ∉ o.indentChar

/-- Repeating a text makes no line feeds. -/
theorem feed_notMem_times {s : Text} (h : '\n' ∉ s) (n : Nat) : '\n' ∉ Text.times n s := by
  unfold Text.times
  split
  · exact List.not_mem_nil
  · rw [List.mem_flatten]
    rintro ⟨t, ht, hfeed⟩
    rw [List.eq_of_mem_replicate ht] at hfeed
    exact h hfeed

/-- An indentation has no line feeds. -/
theorem IndentsInLine.newlines_indent {o : MarkupOptions} (ho : o.IndentsInLine) (depth : Int) :
    Text.newlines (o.indent depth) = 0 :=
  List.count_eq_zero.mpr (feed_notMem_times (feed_notMem_times ho.noFeed _) _)

/-- Of several line feeds in a row one ends the line, so that fewer empty lines are kept. -/
theorem keptLines_le (o : MarkupOptions) (n : Nat) : o.keptLines n ≤ n - 1 := by
  unfold keptLines
  split
  · split
    · exact Nat.le_refl _
    · omega
  · exact Nat.zero_le _

/-- As many empty lines as are kept are kept again. -/
theorem keptLines_keptLines (o : MarkupOptions) (n : Nat) :
    o.keptLines (o.keptLines n + 1) = o.keptLines n := by
  unfold keptLines
  cases o.preserveNewlines with
  | false => rfl
  | true =>
    cases o.maxPreserveNewlines with
    | none =>
      by_cases hn : n = 0
      · simp [hn]
      · simp [hn]
    | some limit =>
      by_cases hn : n = 0
      · subst hn
        show (min ((0 + 1 : Nat) : Int) limit - 1).toNat = 0
        omega
      · simp [hn]
        omega

/-- The white space of a line break with empty lines behind it. -/
def breakPad (o : MarkupOptions) (depth : Int) (blank : Nat) : Text :=
  List.replicate (blank + 1) '\n' ++ o.indent depth

theorem breakPad_ne_nil (o : MarkupOptions) (depth : Int) (blank : Nat) :
    o.breakPad depth blank ≠ [] := by
  simp [breakPad, List.replicate_succ]

/-- A line break with its indentation is white space. -/
theorem IndentsInLine.blank_breakPad {o : MarkupOptions} (ho : o.IndentsInLine) (depth : Int)
    (blank : Nat) : (o.breakPad depth blank).Blank :=
  Text.blank_append.mpr ⟨Text.blank_replicate (by decide) _, ho.blank.indent depth⟩

/-- A line break has one line feed more than empty lines. -/
theorem IndentsInLine.newlines_breakPad {o : MarkupOptions} (ho : o.IndentsInLine) (depth : Int)
    (blank : Nat) : Text.newlines (o.breakPad depth blank) = blank + 1 := by
  have hindent := ho.newlines_indent depth
  rw [Text.newlines] at hindent ⊢
  rw [breakPad, List.count_append, hindent, List.count_replicate_self]

end MarkupOptions

/-- A space, if one is wanted. -/
def spacePad (space : Bool) : Text :=
  if space then [' '] else []

theorem blank_spacePad (space : Bool) : (spacePad space).Blank := by
  cases space <;> decide

namespace Printer

variable {o : MarkupOptions} {p : Printer}

/-! ## Where the printer stands between two things -/

/-- Other white space has been noted. -/
def noting (p : Printer) (gap : Text) : Printer :=
  { p with newlines := Text.newlines gap, space := !gap.isEmpty }

/-- Nothing has been printed. -/
structure Fresh (p : Printer) : Prop where
  lines : p.lines = []
  line : p.line = []
  depth : p.depth = 0

/-- The line ends in a letter. -/
def Inked (p : Printer) : Prop :=
  ∃ c cs, p.line = c :: cs ∧ isBlank c = false

/-- The printer stands behind something, or nothing has been printed. -/
def Poised (p : Printer) : Prop :=
  p.Fresh ∨ p.Inked

/-- No white space has been noted. -/
def Still (p : Printer) : Prop :=
  p.newlines = 0 ∧ p.space = false

/-- A printer that is still has noted no white space. -/
theorem Still.noting_nil (h : p.Still) : p.noting [] = p := by
  obtain ⟨hnewlines, hspace⟩ := h
  cases p
  simp_all [noting, Text.newlines]

@[simp] theorem settled_noting (p : Printer) (gap : Text) :
    (p.noting gap).settled = p.settled := rfl

/-- White space that is noted on its own is all there is. -/
theorem noteGap_noting_nil (p : Printer) {gap : Text} (h : gap ≠ []) :
    (p.noting []).noteGap gap = p.noting gap := by
  have hgap : gap.isEmpty = false := by simpa using h
  simp [noting, noteGap, Text.newlines, hgap]

/-- A line that ends in a letter has content. -/
theorem Inked.hasContent (h : p.Inked) : p.hasContent = true := by
  obtain ⟨c, cs, hline, hc⟩ := h
  simp [Printer.hasContent, Text.allBlank, hline, hc]

/-- At the beginning there is no content. -/
theorem Fresh.hasContent (h : p.Fresh) : p.hasContent = false := by
  simp [Printer.hasContent, Text.allBlank, h.line]

/-- Behind a letter all that has been printed ends in it. -/
theorem Inked.exists_whole_eq (h : p.Inked) : ∃ s c, p.whole = s ++ [c] ∧ isBlank c = false := by
  obtain ⟨c, cs, hline, hc⟩ := h
  exact ⟨finished p.lines ++ cs.reverse, c, by simp [whole, hline], hc⟩

/-- Behind a letter there is no gap. -/
theorem Inked.solid_eq (h : p.Inked) : p.solid = p.whole := by
  obtain ⟨s, c, hwhole, hc⟩ := h.exists_whole_eq
  rw [solid, hwhole]
  exact Text.tight_concat hc s

/-- Behind a letter more than white space has been printed. -/
theorem Inked.not_blank_whole (h : p.Inked) : ¬ p.whole.Blank := by
  obtain ⟨s, c, hwhole, hc⟩ := h.exists_whole_eq
  intro hblank
  rw [hblank.of_mem (c := c) (by simp [hwhole])] at hc
  cases hc

/-- Behind a letter, the line is finished as it stands. -/
theorem Inked.newline (h : p.Inked) (blank : Nat) :
    p.newline blank =
      { p with line := [], lines := List.replicate blank [] ++ p.line.reverse :: p.lines } := by
  obtain ⟨c, cs, hline, hc⟩ := h
  have htrim : Text.trimLeft p.line = p.line := by
    simp [Text.trimLeft, hline, hc]
  have hempty : p.line.reverse.isEmpty = false := by simp [hline]
  have hcontent : p.hasContent = true := Inked.hasContent ⟨c, cs, hline, hc⟩
  simp [Printer.newline, hcontent, htrim, hempty]

/-- Behind a letter a line break adds its line feeds and nothing else. -/
theorem Inked.whole_newline (h : p.Inked) (blank : Nat) :
    (p.newline blank).whole = p.whole ++ List.replicate (blank + 1) '\n' := by
  rw [h.newline, whole, whole]
  dsimp only
  rw [finished_replicate, finished_cons, List.reverse_nil, List.append_nil,
    List.append_assoc _ ['\n'], List.singleton_append, ← List.replicate_succ]

/-- A line that is behind empty lines already only gets those that are missing. -/
theorem Inked.newline_newline (h : p.Inked) (blank more : Nat) :
    (p.newline blank).newline more = p.newline (max blank more) := by
  have hline : p.line.reverse.isEmpty = false := by
    obtain ⟨c, cs, hline, -⟩ := h
    simp [hline]
  -- the line that has letters is where the count of empty lines stops
  have hexisting : (List.takeWhile List.isEmpty
      (List.replicate blank ([] : Text) ++ p.line.reverse :: p.lines)).length = blank := by
    rw [List.takeWhile_append_of_pos, List.takeWhile_cons_of_neg (by simp [hline])]
    · simp
    · intro t ht
      rw [List.eq_of_mem_replicate ht]
      rfl
  have hmax : List.replicate (more - blank) ([] : Text) ++ List.replicate blank [] =
      List.replicate (max blank more) [] := by
    rw [List.replicate_append_replicate]
    congr 1
    omega
  rw [h.newline, h.newline]
  simp only [Printer.newline, Printer.hasContent, Text.allBlank, List.all_nil, Bool.not_true,
    Bool.false_eq_true, if_false]
  rw [hexisting, if_neg (by simp), ← List.append_assoc, hmax]

/-- At the beginning there is no line to break. -/
theorem Fresh.newline (h : p.Fresh) (blank : Nat) : p.newline blank = p := by
  have hcontent := h.hasContent
  obtain ⟨hlines, hline, -⟩ := h
  cases p
  simp_all [Printer.newline]

/-! ## Placing again -/

/-- At the beginning placing something does nothing. -/
theorem Fresh.place (h : p.Fresh) (block atom : Bool) :
    p.place o block atom = (p.settled, false) := by
  simp [Printer.place, h.hasContent, h.lines]

/-- Behind a letter the line is broken for a block, after a block, and where a line break of the
source is kept. -/
theorem Inked.place (h : p.Inked) (block atom : Bool) :
    p.place o block atom =
      if block || p.breakNext || (p.newlines != 0 && (o.preserveNewlines || atom)) then
        (p.settled.newline (o.keptLines p.newlines), false)
      else (p.settled, p.space) := by
  simp [Printer.place, h.hasContent]

/-- **Placing again.** A thing is placed on a new line, or behind the last one; and with
the white space noted that this makes it is placed there again. If it was moved to the
next line from there, it is placed there, or behind the last one with a space. -/
theorem Inked.place_cases (h : p.Inked) (ho : o.IndentsInLine) (block atom : Bool) :
    (∃ blank, p.place o block atom = (p.settled.newline blank, false) ∧
      (p.noting (o.breakPad p.depth blank)).place o block atom =
        (p.settled.newline blank, false)) ∨
    (block = false ∧ p.place o block atom = (p.settled, p.space) ∧
      (p.noting (spacePad p.space)).place o block atom = (p.settled, p.space) ∧
      ((p.noting (o.breakPad p.depth 0)).place o block atom = (p.settled.newline 0, false) ∨
        (p.noting (o.breakPad p.depth 0)).place o block atom = (p.settled, true))) := by
  have hnoting : ∀ gap, (p.noting gap).Inked := fun _ => h
  have hbreak : ∀ blank, (p.noting (o.breakPad p.depth blank)).newlines = blank + 1 :=
    fun blank => ho.newlines_breakPad p.depth blank
  have hspace : (p.noting (o.breakPad p.depth 0)).space = true := by
    simp [noting, o.breakPad_ne_nil]
  rw [h.place]
  split
  · -- the line is broken: so it is again, by as many line feeds
    rename_i hdown
    left
    refine ⟨o.keptLines p.newlines, rfl, ?_⟩
    rw [(hnoting _).place, hbreak, o.keptLines_keptLines, if_pos, settled_noting]
    -- what made the line break is there again: the notes have a line feed
    rw [Bool.or_eq_true, Bool.or_eq_true, Bool.and_eq_true] at hdown
    rcases hdown with (hblock | hnext) | ⟨-, hkept⟩
    · simp [hblock]
    · simp [noting, hnext]
    · simp [hkept]
  · -- the line goes on, unless the line feed that was put there breaks it now
    rename_i halong
    simp only [Bool.or_eq_true, Bool.and_eq_true, not_or, Bool.not_eq_true] at halong
    obtain ⟨⟨hblock, hnext⟩, -⟩ := halong
    right
    refine ⟨hblock, rfl, ?_, ?_⟩
    · have hnewlines : (p.noting (spacePad p.space)).newlines = 0 := by
        unfold noting spacePad
        cases p.space <;> rfl
      have hnoted : (p.noting (spacePad p.space)).space = p.space := by
        unfold noting spacePad
        cases p.space <;> rfl
      rw [(hnoting _).place, hnewlines, hnoted, if_neg, settled_noting]
      simp [hblock, noting, hnext]
    · rw [(hnoting _).place, hbreak, hspace, settled_noting]
      split
      · left
        have hkept : o.keptLines 1 = 0 := by
          have hagain := o.keptLines_keptLines 0
          simpa [MarkupOptions.keptLines] using hagain
        rw [hkept]
      · exact .inr rfl

/-! ## Ways of printing -/

/-- Prints something that flows with the text. What it looks like may depend on the
column at which it starts. -/
def inlineBy (o : MarkupOptions) (p : Printer) (render : Nat → Text) (atom wrappable : Bool) :
    Printer :=
  let (q, space) := p.place o false atom
  let written := render (q.startColumn o space)
  if wrappable && !q.fits o space written then
    (q.newline 0).write o (render ((q.newline 0).startColumn o false))
  else (q.spaced space).write o written

/-- What is printed goes to the next line because it does not fit. -/
def wraps (o : MarkupOptions) (p : Printer) (render : Nat → Text) (atom : Bool) : Bool :=
  let (q, space) := p.place o false atom
  !q.fits o space (render (q.startColumn o space))

/-- Prints something at the start of a line, behind an empty one if that is asked for. -/
def blockBy (o : MarkupOptions) (p : Printer) (render : Nat → Text) (extra : Bool) : Printer :=
  let q := if extra then (p.placeBlock o).newline 1 else p.placeBlock o
  q.write o (render (q.startColumn o false))

/-- Something is printed behind a pad of white space. With that pad noted, it is printed
in the same way again. -/
structure Replays (p q : Printer) (again : Printer → Printer) (s : Text) : Prop where
  inked : ¬ s.Blank → Text.Tight s → q.Inked
  still : q.Still
  exists_pad : ∃ pad, pad.Blank ∧ q.whole = p.whole ++ pad ++ s ∧ again (p.noting pad) = q ∧
    (p.Inked → p.space = true → pad ≠ []) ∧ (p.Fresh → pad = [])

/-- The lead of a line is followed by what is written. -/
theorem inked_write (q : Printer) {s : Text} (hs : ¬ s.Blank) (htight : Text.Tight s) :
    (q.write o s).Inked := by
  obtain ⟨t, c, rfl, hc⟩ := htight.exists_concat hs
  refine ⟨c, t.reverse ++ if q.hasContent then q.line else (o.indent q.depth).reverse, ?_, hc⟩
  simp [write]

theorem still_settled (p : Printer) : p.settled.Still := ⟨rfl, rfl⟩

/-- A space at the end of the line is no white space noted. -/
theorem Still.spaced (h : p.Still) (space : Bool) : (p.spaced space).Still := by
  cases space <;> exact h

/-- At the start of a text there is no indentation. -/
theorem Fresh.whole_write (h : p.Fresh) (s : Text) : (p.write o s).whole = s := by
  have hindent : o.indent p.depth = [] := by
    rw [h.depth]
    unfold MarkupOptions.indent Text.times
    split <;> rfl
  simp [write, whole, h.hasContent, h.lines, hindent]

theorem Fresh.whole_eq (h : p.Fresh) : p.whole = [] := by
  simp [whole, h.lines, h.line]

/-- On a new line, what is written stands behind the line break. -/
theorem Inked.whole_write_newline (h : p.Inked) (blank : Nat) (s : Text) :
    ((p.newline blank).write o s).whole = p.whole ++ o.breakPad p.depth blank ++ s := by
  have hwhole := h.whole_newline blank
  rw [h.newline] at hwhole ⊢
  simp only [whole, List.reverse_nil, List.append_nil] at hwhole
  simp only [write, whole, Printer.hasContent, Text.allBlank, List.all_nil, Bool.not_true,
    Bool.false_eq_true, if_false, List.reverse_append, List.reverse_reverse]
  rw [← List.append_assoc, hwhole, MarkupOptions.breakPad]
  simp only [List.append_assoc]

/-- Behind a letter something is written on the same line, with a space if one is wanted. -/
theorem Inked.whole_write_spaced (h : p.Inked) (space : Bool) (s : Text) :
    ((p.spaced space).write o s).whole = p.whole ++ spacePad space ++ s := by
  have hcontent : (p.spaced space).hasContent = true := by
    have hinked := h.hasContent
    cases space with
    | false => exact hinked
    | true =>
      have hblank : isBlank ' ' = true := by decide
      simpa [spaced, Printer.hasContent, Text.allBlank, hblank] using hinked
  cases space with
  | false =>
    rw [write, hcontent]
    simp [whole, spaced, spacePad]
  | true =>
    rw [write, hcontent]
    simp [whole, spaced, spacePad]

/-- A thing that does not fit on a line fits even less behind a space. -/
theorem fits_of_spaced {s t : Text} {space : Bool}
    (hlength : (Text.firstLine s).length = (Text.firstLine t).length)
    (h : p.fits o true t = true) : p.fits o space s = true := by
  unfold fits at h ⊢
  simp only [Bool.or_eq_true, decide_eq_true_eq] at h ⊢
  refine h.imp_right fun hfits => ?_
  cases space <;> simp at hfits ⊢ <;> omega

/-- The first line of what is printed is as long at any column. -/
def EvenStart (render : Nat → Text) : Prop :=
  ∀ c c', (Text.firstLine (render c)).length = (Text.firstLine (render c')).length

theorem evenStart_const (s : Text) : EvenStart fun _ => s := fun _ _ => rfl

/-! ## Printing again -/

/-- At the beginning the line does not end in a letter. -/
theorem Fresh.not_inked (h : p.Fresh) : ¬ p.Inked := by
  rintro ⟨c, cs, hline, -⟩
  rw [h.line] at hline
  cases hline

/-- White space that is noted prints nothing. -/
theorem Fresh.noting (h : p.Fresh) (gap : Text) : (p.noting gap).Fresh :=
  ⟨h.lines, h.line, h.depth⟩

theorem Fresh.settled (h : p.Fresh) : p.settled.Fresh :=
  ⟨h.lines, h.line, h.depth⟩

section

variable {q : Printer} {again : Printer → Printer} {s : Text}

/-- At the start of a text there is no pad. -/
theorem Fresh.replays (h : p.Fresh) (hq : q = p.settled.write o s)
    (hagain : ∀ gap, again (p.noting gap) = q) : Replays p q again s where
  inked hs htight := hq ▸ inked_write _ hs htight
  still := hq ▸ still_settled p
  exists_pad := by
    refine ⟨[], Text.blank_nil, ?_, hagain [], fun hinked => absurd hinked h.not_inked,
      fun _ => rfl⟩
    rw [hq, h.settled.whole_write, h.whole_eq]
    rfl

/-- On a new line the pad is a line break. -/
theorem Inked.replays_break (h : p.Inked) (ho : o.IndentsInLine) {blank : Nat}
    (hq : q = (p.settled.newline blank).write o s)
    (hagain : again (p.noting (o.breakPad p.depth blank)) = q) : Replays p q again s where
  inked hs htight := hq ▸ inked_write _ hs htight
  still := hq ▸ still_settled p
  exists_pad := by
    have hwhole := Inked.whole_write_newline (o := o) (p := p.settled) h blank s
    refine ⟨o.breakPad p.depth blank, ho.blank_breakPad _ _, ?_, hagain,
      fun _ _ => o.breakPad_ne_nil _ _, fun hfresh => absurd h hfresh.not_inked⟩
    rw [hq, hwhole]
    rfl

/-- Behind the last thing the pad is a space, or nothing. -/
theorem Inked.replays_space (h : p.Inked) (hq : q = (p.settled.spaced p.space).write o s)
    (hagain : again (p.noting (spacePad p.space)) = q) : Replays p q again s where
  inked hs htight := hq ▸ inked_write _ hs htight
  still := hq ▸ (still_settled p).spaced p.space
  exists_pad := by
    have hwhole := Inked.whole_write_spaced (o := o) (p := p.settled) h p.space s
    refine ⟨spacePad p.space, blank_spacePad _, ?_, hagain, fun _ hspace => ?_,
      fun hfresh => absurd h hfresh.not_inked⟩
    · rw [hq, hwhole]
      rfl
    · rw [hspace]
      exact List.cons_ne_nil _ _

/-- What is printed again may be told in other words. -/
theorem Replays.congr (h : Replays p q again s) {q' : Printer} {again' : Printer → Printer}
    (hq : q' = q) (hagain : ∀ gap, again' (p.noting gap) = again (p.noting gap)) :
    Replays p q' again' s := by
  obtain ⟨pad, hpad, hwhole, hsame, hnotes⟩ := h.exists_pad
  subst hq
  exact ⟨h.inked, h.still, pad, hpad, hwhole, (hagain pad).trans hsame, hnotes⟩

/-- A change that leaves the text and the notes alone can be made again. -/
theorem Replays.map (h : Replays p q again s) {f : Printer → Printer}
    (hf : ∀ r : Printer, ∃ b, f r = { r with breakNext := b }) :
    Replays p (f q) (fun r => f (again r)) s := by
  obtain ⟨b, hb⟩ := hf q
  obtain ⟨pad, hpad, hwhole, hagain, hnotes⟩ := h.exists_pad
  rw [hb]
  refine ⟨h.inked, h.still, pad, hpad, hwhole, ?_, hnotes⟩
  rw [hagain, hb]

end

section

variable {q : Printer} {space : Bool} {render : Nat → Text} {atom wrappable : Bool}

/-- On an empty line everything fits. -/
theorem inlineBy_empty (hplace : p.place o false atom = (q, false)) (hq : q.hasContent = false) :
    p.inlineBy o render atom wrappable = q.write o (render (q.startColumn o false)) := by
  have hfits : ∀ s, q.fits o false s = true := fun s => by simp [fits, hq]
  simp [inlineBy, hplace, hfits, spaced]

/-- What fits is printed on the line. -/
theorem inlineBy_fits (hplace : p.place o false atom = (q, space))
    (hfits : (wrappable && !q.fits o space (render (q.startColumn o space))) = false) :
    p.inlineBy o render atom wrappable =
      (q.spaced space).write o (render (q.startColumn o space)) := by
  simp [inlineBy, hplace, hfits]

/-- What does not fit is printed on the next line. -/
theorem inlineBy_wraps (hplace : p.place o false atom = (q, space))
    (hmisfit : (wrappable && !q.fits o space (render (q.startColumn o space))) = true) :
    p.inlineBy o render atom wrappable =
      (q.newline 0).write o (render ((q.newline 0).startColumn o false)) := by
  simp only [inlineBy, hplace, hmisfit, if_true]

end

/-- **What flows with the text is printed again as it was**, if it fits, if its first line
is as long at any column, or if there was white space before it. -/
theorem replays_inlineBy (hp : p.Poised) (ho : o.IndentsInLine) (render : Nat → Text)
    (atom wrappable : Bool)
    (heven : wrappable = true → p.space = true ∨ EvenStart render ∨ p.wraps o render atom = false) :
    ∃ column, Replays p (p.inlineBy o render atom wrappable)
      (fun q => q.inlineBy o render atom wrappable) (render column) := by
  rcases hp with hfresh | hinked
  · -- at the start nothing is in front that could be noted or wrapped
    have hfirst : p.inlineBy o render atom wrappable =
        p.settled.write o (render (p.settled.startColumn o false)) :=
      inlineBy_empty (hfresh.place false atom) hfresh.settled.hasContent
    refine ⟨_, hfresh.replays hfirst fun gap => ?_⟩
    rw [hfirst]
    exact inlineBy_empty ((hfresh.noting gap).place false atom) hfresh.settled.hasContent
  rcases hinked.place_cases ho false atom with ⟨blank, hfirst, hagain⟩ | ⟨-, hfirst, hagain, hwrap⟩
  · -- a line break that was due is due again
    refine ⟨_, hinked.replays_break ho (inlineBy_empty hfirst rfl) ?_⟩
    rw [inlineBy_empty hfirst rfl]
    exact inlineBy_empty hagain rfl
  cases hmisfit : wrappable && !p.settled.fits o p.space
      (render (p.settled.startColumn o p.space)) with
  | false =>
    -- it fits on the line, and does so again
    refine ⟨_, hinked.replays_space (inlineBy_fits hfirst hmisfit) ?_⟩
    rw [inlineBy_fits hfirst hmisfit]
    exact inlineBy_fits hagain hmisfit
  | true =>
    refine ⟨_, hinked.replays_break ho (inlineBy_wraps hfirst hmisfit) ?_⟩
    rw [inlineBy_wraps hfirst hmisfit]
    rcases hwrap with hbreak | hspace
    · -- the line break is noted as one the second time
      exact inlineBy_empty hbreak rfl
    · -- behind a space it fits as little as before
      refine inlineBy_wraps hspace ?_
      rw [Bool.and_eq_true, Bool.not_eq_true'] at hmisfit ⊢
      obtain ⟨hwrappable, hmisfit⟩ := hmisfit
      refine ⟨hwrappable, Bool.eq_false_iff.mpr fun hfits => ?_⟩
      rcases heven hwrappable with hnoted | heven | hfirm
      · rw [hnoted, hfits] at hmisfit
        exact Bool.noConfusion hmisfit
      · rw [fits_of_spaced (heven _ _) hfits] at hmisfit
        exact Bool.noConfusion hmisfit
      · rw [wraps, hfirst] at hfirm
        dsimp only at hfirm
        rw [hmisfit] at hfirm
        exact Bool.noConfusion hfirm

/-- Text that flows is printed again as it was. -/
theorem replays_inline (hp : p.Poised) (ho : o.IndentsInLine) (s : Text) (atom wrappable : Bool) :
    Replays p (p.inline o s atom wrappable) (fun q => q.inline o s atom wrappable) s := by
  obtain ⟨-, hreplays⟩ := replays_inlineBy hp ho (fun _ => s) atom wrappable
    fun _ => .inr (.inl (evenStart_const s))
  exact hreplays

/-- **What starts a line is printed again as it was.** -/
theorem replays_blockBy (hp : p.Poised) (ho : o.IndentsInLine) (render : Nat → Text)
    (extra : Bool) :
    ∃ column, Replays p (p.blockBy o render extra) (fun q => q.blockBy o render extra)
      (render column) := by
  rcases hp with hfresh | hinked
  · -- nothing is printed yet: the block starts the first line both times
    have hsame : ∀ r : Printer, r.placeBlock o = p.settled → r.blockBy o render extra =
        p.settled.write o (render (p.settled.startColumn o false)) := by
      intro r hplace
      simp [blockBy, hplace, hfresh.settled.newline]
    have hplace : ∀ r : Printer, r.Fresh → r.placeBlock o = r.settled := by
      intro r hr
      rw [placeBlock, hr.place]
    refine ⟨_, hfresh.replays (hsame p (hplace p hfresh)) fun gap => ?_⟩
    rw [hsame p (hplace p hfresh)]
    exact hsame _ (hplace _ (hfresh.noting gap))
  · -- the empty line that is asked for may be there already
    let total (blank : Nat) := if extra then max blank 1 else blank
    have hprint : ∀ (r : Printer) (blank : Nat), r.placeBlock o = p.settled.newline blank →
        r.blockBy o render extra = (p.settled.newline (total blank)).write o
          (render ((p.settled.newline (total blank)).startColumn o false)) := by
      intro r blank hplace
      have hmax := Inked.newline_newline (p := p.settled) hinked blank 1
      cases extra with
      | false => simp [blockBy, hplace, total]
      | true => simp [blockBy, hplace, hmax, total]
    have hplace : ∀ gap, (p.noting gap).placeBlock o =
        p.settled.newline (o.keptLines (Text.newlines gap)) := by
      intro gap
      have hnoting : (p.noting gap).Inked := hinked
      rw [placeBlock, hnoting.place]
      rfl
    have hfirst : p.placeBlock o = p.settled.newline (o.keptLines p.newlines) := by
      rw [placeBlock, hinked.place]
      rfl
    -- the second time as many line feeds are counted as the first time printed
    have htotal : total (o.keptLines (total (o.keptLines p.newlines) + 1)) =
        total (o.keptLines p.newlines) := by
      have hkept := o.keptLines_keptLines p.newlines
      have hle := o.keptLines_le 2
      cases extra with
      | false => exact hkept
      | true =>
        by_cases hzero : o.keptLines p.newlines = 0
        · have hone : max (o.keptLines 2) 1 = 1 := by omega
          simpa [total, hzero] using hone
        · have hmax : max (o.keptLines p.newlines) 1 = o.keptLines p.newlines := by omega
          simp only [total, if_true, hmax, hkept]
    refine ⟨_, hinked.replays_break ho (hprint p _ hfirst) ?_⟩
    rw [hprint p _ hfirst]
    have hagain := hprint _ _ (hplace (o.breakPad p.depth (total (o.keptLines p.newlines))))
    rwa [ho.newlines_breakPad, htotal] at hagain

/-- So is text that gets a line of its own. -/
theorem replays_block (hp : p.Poised) (ho : o.IndentsInLine) (s : Text) :
    Replays p (p.block o s) (fun q => q.block o s) s := by
  obtain ⟨-, hblock⟩ := replays_blockBy hp ho (fun _ => s) false
  exact hblock.map (f := fun r => { r with breakNext := true }) fun _ => ⟨true, rfl⟩

/-- Something is printed as inline or as block elements are. -/
theorem replays_either (hp : p.Poised) (ho : o.IndentsInLine) (s : Text)
    (inline wrappable : Bool) :
    Replays p (if inline then p.inline o s false wrappable else p.block o s)
      (fun q => if inline then q.inline o s false wrappable else q.block o s) s := by
  cases inline with
  | true => exact replays_inline hp ho s false wrappable
  | false => exact replays_block hp ho s

end Printer

namespace Layout

open Printer (Fresh Inked Still EvenStart)

variable {o : MarkupOptions}

/-! ## Layouts -/

/-- Other white space has been noted. -/
def noting (l : Layout) (gap : Text) : Layout :=
  l.print (·.noting gap)

/-- The layout stands behind something, or at its beginning. -/
def Poised (l : Layout) : Prop :=
  (l.printer.Fresh ∧ l.stack = []) ∨ l.printer.Inked

/-- Something is printed behind a pad of white space. With that pad noted, the layout
prints it in the same way again. -/
structure Replays (l l' : Layout) (again : Layout → Layout) (s : Text) : Prop where
  inked : ¬ s.Blank → Text.Tight s → l'.printer.Inked
  still : l'.printer.Still
  exists_pad : ∃ pad, pad.Blank ∧ l'.printer.whole = l.printer.whole ++ pad ++ s ∧
    again (l.noting pad) = l' ∧ (l.printer.Inked → l.printer.space = true → pad ≠ []) ∧
    (l.printer.Fresh → pad = [])

/-- What the printer does at another depth, the layout can do, if the stack is all that
changes besides. -/
theorem Replays.of_printer {l l' : Layout} {again : Layout → Layout} {s : Text} (depth : Int)
    {q : Printer} {again' : Printer → Printer}
    (h : Printer.Replays { l.printer with depth := depth } q again' s)
    (hfresh : l.printer.Fresh → depth = 0) (finish : Printer → Layout)
    (hfinish : ∀ r, ∃ d, (finish r).printer = { r with depth := d }) (hl' : l' = finish q)
    (hagain : ∀ gap, again (l.noting gap) =
      finish (again' (Printer.noting { l.printer with depth := depth } gap))) :
    Replays l l' again s := by
  obtain ⟨pad, hpad, hwhole, hsame, hspace, hstart⟩ := h.exists_pad
  obtain ⟨d, hd⟩ := hfinish q
  subst hl'
  refine ⟨?_, ?_, pad, hpad, ?_, ?_, hspace, fun hf => hstart ⟨hf.lines, hf.line, hfresh hf⟩⟩
  · rw [hd]
    exact h.inked
  · rw [hd]
    exact h.still
  · rw [hd]
    exact hwhole
  · rw [hagain, hsame]

/-- A layout is poised as its printer is. -/
theorem Poised.printer {l : Layout} (h : l.Poised) : l.printer.Poised :=
  h.imp_left (·.1)

/-- The printer prints something, and nothing else changes. -/
theorem replays_print {l : Layout} {f : Printer → Printer} {s : Text}
    (h : Printer.Replays l.printer (f l.printer) f s) :
    Replays l (l.print f) (fun l => l.print f) s :=
  Replays.of_printer l.printer.depth h (fun hf => hf.depth)
    (fun r => { l with printer := r }) (fun r => ⟨r.depth, rfl⟩) rfl fun _ => rfl

/-! ## Ends of elements -/

/-- The end of an element is printed again as it was. -/
theorem replays_printEnd {p : Printer} (hp : p.Poised) (ho : o.IndentsInLine) (e : OpenElement)
    (extra : Bool) (s : Text) :
    Printer.Replays p (printEnd o p e extra s) (fun q => printEnd o q e extra s) s := by
  -- noting a gap prints no line, so the choice is the same the second time
  by_cases hlines : e.linesAtOpen < p.lines.length
  · obtain ⟨-, hblock⟩ := Printer.replays_blockBy hp ho (fun _ => s) extra
    refine (hblock.map (f := fun r => { r with breakNext := true }) fun _ => ⟨true, rfl⟩).congr
      ?_ fun gap => ?_
    · rw [printEnd, if_pos hlines]
      rfl
    · have hlines' : e.linesAtOpen < (p.noting gap).lines.length := hlines
      rw [printEnd, if_pos hlines']
      rfl
  · obtain ⟨-, hinline⟩ := Printer.replays_inlineBy hp ho (fun _ => s) false false
      fun h => (nomatch h)
    refine (hinline.map (f := fun r => { r with breakNext := true }) fun _ => ⟨true, rfl⟩).congr
      ?_ fun gap => ?_
    · rw [printEnd, if_neg hlines]
      rfl
    · have hlines' : ¬ e.linesAtOpen < (p.noting gap).lines.length := hlines
      rw [printEnd, if_neg hlines']
      rfl

/-- A layout stays poised at another depth, unless it is at its beginning. -/
theorem Poised.withDepth {l : Layout} (h : l.Poised) {depth : Int}
    (hdepth : l.printer.Fresh → depth = 0) :
    Printer.Poised { l.printer with depth := depth } := by
  rcases h with ⟨hfresh, -⟩ | hinked
  · exact .inl ⟨hfresh.lines, hfresh.line, hdepth hfresh⟩
  · exact .inr hinked

/-- **An end tag is printed again as it was.** -/
theorem replays_onEnd {l : Layout} (hl : l.Poised) (ho : o.IndentsInLine) (raw name : Text) :
    Replays l (l.onEnd o raw name) (fun l => l.onEnd o raw name) raw := by
  -- which element is closed does not depend on the notes
  have hdepth : ∀ gap, unwind? name (l.noting gap).printer.depth (l.noting gap).stack =
      unwind? name l.printer.depth l.stack := fun _ => rfl
  cases hunwind : unwind? name l.printer.depth l.stack with
  -- an end tag that closes nothing is printed as it stands
  | none =>
    have heither := Printer.replays_either hl.printer ho raw (Element.isInline name) true
    refine Replays.of_printer l.printer.depth heither (fun hf => hf.depth)
      (fun r => { l with printer := r }) (fun r => ⟨r.depth, rfl⟩) ?_ fun gap => ?_
    · rw [onEnd, hunwind]
      rfl
    · rw [onEnd, hdepth, hunwind]
      rfl
  | some found =>
    obtain ⟨e, rest, depth⟩ := found
    have hfresh : l.printer.Fresh → depth = 0 := by
      intro hf
      rcases hl with ⟨-, hstack⟩ | hinked
      · rw [hstack] at hunwind
        cases hunwind
      · exact absurd hinked hf.not_inked
    have hp := hl.withDepth hfresh
    cases hinline : Element.isInline name with
    -- an inline element flows, and a block ends at its own depth
    | true =>
      refine Replays.of_printer depth (Printer.replays_inline hp ho raw false true) hfresh
        (fun r => ⟨r, rest⟩) (fun r => ⟨r.depth, rfl⟩) ?_ fun gap => ?_
      · rw [onEnd, hunwind]
        dsimp only
        rw [if_pos hinline]
      · rw [onEnd, hdepth, hunwind]
        dsimp only
        rw [if_pos hinline]
        rfl
    | false =>
      refine Replays.of_printer depth
        (replays_printEnd hp ho e (o.extraLiners.contains ('/' :: name)) raw) hfresh
        (fun r => ⟨r, rest⟩) (fun r => ⟨r.depth, rfl⟩) ?_ fun gap => ?_
      · rw [onEnd, hunwind]
        dsimp only
        rw [hinline]
        rfl
      · rw [onEnd, hdepth, hunwind]
        dsimp only
        rw [hinline]
        rfl

/-! ## Starts of elements -/

/-- The layout after an element that ends where another of its name begins has been closed. -/
def closed (l : Layout) (name : Text) : Layout :=
  if Element.isSelfTerminating name && (l.stack.head?.map (·.name)) == some name then l.pop else l

/-- The layout after a start tag has been printed. -/
def opened (o : MarkupOptions) (l : Layout) (tag : StartTag) : Layout :=
  if tag.void then l
  else l.push tag.name
    (!Element.isInline tag.name && !(tag.name == "html".toList && !o.indentInnerHtml))

/-- A start tag closes an element, is printed, and opens one. -/
theorem onStart_eq (o : MarkupOptions) (l : Layout) (tag : StartTag) :
    l.onStart o tag = opened o ((l.closed tag.name).print fun p =>
      if Element.isInline tag.name then printInlineStart o p tag
      else printBlockStart o p tag) tag :=
  rfl

/-- Closing an element changes the depth and the stack. -/
theorem exists_closed (l : Layout) (name : Text) : ∃ depth stack,
    (∀ gap, (l.noting gap).closed name =
      ⟨Printer.noting { l.printer with depth := depth } gap, stack⟩) ∧
    l.closed name = ⟨{ l.printer with depth := depth }, stack⟩ ∧
    (l.stack = [] → depth = l.printer.depth) := by
  obtain ⟨p, stack⟩ := l
  cases stack with
  | nil =>
    refine ⟨p.depth, [], fun gap => ?_, ?_, fun _ => rfl⟩
    · simp [closed, noting, print, Printer.noting]
    · simp [closed]
  | cons e rest =>
    -- an element that ends where the next of its name begins is taken off the stack
    cases hclose : Element.isSelfTerminating name && some e.name == some name with
    | true =>
      refine ⟨depthAfter p.depth e, rest, fun gap => ?_, ?_, (fun h => nomatch h)⟩
      · rw [closed, noting, print, List.head?_cons, Option.map_some, if_pos hclose]
        rfl
      · rw [closed, List.head?_cons, Option.map_some, if_pos hclose]
        rfl
    | false =>
      refine ⟨p.depth, e :: rest, fun gap => ?_, ?_, fun _ => rfl⟩
      · rw [closed, noting, print, List.head?_cons, Option.map_some, hclose]
        rfl
      · rw [closed, List.head?_cons, Option.map_some, hclose]
        rfl

/-- Two tags that are printed alike wherever they stand. -/
structure Alike (o : MarkupOptions) (tag tag' : StartTag) : Prop where
  name : tag'.name = tag.name
  void : tag'.void = tag.void
  render : ∀ depth column, tag'.render o depth column = tag.render o depth column

/-- Placing something does not change the depth. -/
theorem depth_place (o : MarkupOptions) (p : Printer) (block atom : Bool) :
    (p.place o block atom).1.depth = p.depth := by
  unfold Printer.place
  dsimp only
  split
  · split <;> rfl
  · split <;> rfl

/-- A start tag flows as rendered at the depth of the printer. -/
theorem printInlineStart_eq (o : MarkupOptions) (p : Printer) (tag : StartTag) :
    printInlineStart o p tag = p.inlineBy o (tag.render o p.depth) false true := by
  unfold printInlineStart Printer.inlineBy
  dsimp only
  rw [← depth_place o p false false, Bool.true_and]
  cases Printer.fits o (p.place o false false).1 (p.place o false false).2 _ <;> rfl

/-- So does a block, behind an empty line if the tag is to have one. -/
theorem printBlockStart_eq (o : MarkupOptions) (p : Printer) (tag : StartTag) :
    printBlockStart o p tag =
      (fun r : Printer => { r with breakNext := r.breakNext || tag.void })
        (p.blockBy o (tag.render o p.depth) (o.extraLiners.contains tag.name)) := by
  have hdepth := depth_place o p true false
  unfold printBlockStart Printer.blockBy
  dsimp only
  split
  · rw [← hdepth]
    rfl
  · rw [← hdepth]
    rfl

/-- The start tag goes to the next line because it does not fit. -/
def wrapsStart (o : MarkupOptions) (l : Layout) (tag : StartTag) : Bool :=
  (l.closed tag.name).printer.wraps o (tag.render o (l.closed tag.name).printer.depth) false

/-- **A start tag is printed again as it was**, unless it is one of an inline element that
does not fit, has no white space before it and looks different from one column to the
next. -/
theorem replays_onStart {l : Layout} (hl : l.Poised) (ho : o.IndentsInLine) (tag : StartTag)
    (heven : Element.isInline tag.name = true → l.printer.space = true ∨
      (∀ depth, EvenStart (tag.render o depth)) ∨ l.wrapsStart o tag = false) :
    ∃ depth column, ∀ tag', Alike o tag tag' →
      Replays l (l.onStart o tag) (fun l => l.onStart o tag') (tag.render o depth column) := by
  -- an element that the tag ends is closed first, both times
  obtain ⟨depth, stack, hagain, hfirst, hsame⟩ := exists_closed l tag.name
  have hfresh : l.printer.Fresh → depth = 0 := by
    intro hf
    rcases hl with ⟨-, hstack⟩ | hinked
    · rw [hsame hstack, hf.depth]
    · exact absurd hinked hf.not_inked
  have hp := hl.withDepth hfresh
  let finish (r : Printer) : Layout := opened o ⟨r, stack⟩ tag
  have hfinish : ∀ r, ∃ d, (finish r).printer = { r with depth := d } := by
    intro r
    dsimp only [finish]
    unfold opened push
    split
    · exact ⟨r.depth, rfl⟩
    · exact ⟨_, rfl⟩
  -- the other tag opens the same element
  have hopened : ∀ tag', Alike o tag tag' → ∀ l : Layout, opened o l tag' = opened o l tag := by
    intro tag' halike l
    unfold opened
    rw [halike.name, halike.void]
  have hrender : ∀ tag', Alike o tag tag' → ∀ d, tag'.render o d = tag.render o d :=
    fun tag' halike d => funext (halike.render d)
  refine ⟨depth, ?_⟩
  cases hinline : Element.isInline tag.name with
  -- an inline tag is rendered where it may start, and so anew wherever that is
  | true =>
    obtain ⟨column, hreplays⟩ := Printer.replays_inlineBy hp ho (tag.render o depth) false true
      fun _ => (heven hinline).imp_right fun h => h.imp (fun h => h depth) fun h => by
        rwa [wrapsStart, hfirst] at h
    refine ⟨column, fun tag' halike =>
      Replays.of_printer depth hreplays hfresh finish hfinish ?_ fun gap => ?_⟩
    · rw [onStart_eq, hfirst, print]
      dsimp only
      rw [if_pos hinline, printInlineStart_eq]
    · rw [onStart_eq, halike.name, hagain, print, hopened tag' halike]
      dsimp only
      rw [if_pos hinline, printInlineStart_eq, hrender tag' halike]
      rfl
  | false =>
    obtain ⟨column, hblock⟩ := Printer.replays_blockBy hp ho (tag.render o depth)
      (o.extraLiners.contains tag.name)
    have hreplays := hblock.map (f := fun r => { r with breakNext := r.breakNext || tag.void })
      fun r => ⟨r.breakNext || tag.void, rfl⟩
    refine ⟨column, fun tag' halike =>
      Replays.of_printer depth hreplays hfresh finish hfinish ?_ fun gap => ?_⟩
    · rw [onStart_eq, hfirst, print]
      dsimp only
      rw [hinline, printBlockStart_eq]
      rfl
    · rw [onStart_eq, halike.name, hagain, print, hopened tag' halike]
      dsimp only
      rw [hinline, printBlockStart_eq, hrender tag' halike, halike.name, halike.void]
      rfl

/-! ## Elements whose content is not read as markup -/

/-- Placing something uses up the line break that was due. -/
theorem breakNext_place (o : MarkupOptions) (p : Printer) (block atom : Bool) :
    (p.place o block atom).1.breakNext = false := by
  unfold Printer.place
  dsimp only
  split
  · split <;> rfl
  · split <;> rfl

/-- Behind what flows no line break is due. -/
theorem breakNext_inlineBy (o : MarkupOptions) (p : Printer) (render : Nat → Text)
    (atom wrappable : Bool) : (p.inlineBy o render atom wrappable).breakNext = false := by
  have hplace := breakNext_place o p false atom
  unfold Printer.inlineBy
  dsimp only
  split
  · exact hplace
  · cases (p.place o false atom).2 <;> exact hplace

/-- Behind a block only its caller asks for a line break. -/
theorem breakNext_blockBy (o : MarkupOptions) (p : Printer) (render : Nat → Text) (extra : Bool) :
    (p.blockBy o render extra).breakNext = false := by
  have hplace := breakNext_place o p true false
  unfold Printer.blockBy
  dsimp only
  split <;> exact hplace

/-- A start tag opens its element on the line where it ends, and nothing has to follow on
a new line. -/
theorem onStart_opens (l : Layout) {tag : StartTag} (hvoid : tag.void = false) :
    (l.onStart o tag).printer.breakNext = false ∧ ∃ indented rest,
      (l.onStart o tag).stack =
        ⟨tag.name, (l.onStart o tag).printer.lines.length, indented⟩ :: rest := by
  have hopened : ∀ l : Layout, opened o l tag = l.push tag.name
      (!Element.isInline tag.name && !(tag.name == "html".toList && !o.indentInnerHtml)) := by
    intro l
    rw [opened, hvoid, if_neg Bool.false_ne_true]
  rw [onStart_eq, hopened, print]
  refine ⟨?_, _, _, rfl⟩
  cases hinline : Element.isInline tag.name with
  | true =>
    simp only [push, if_true, printInlineStart_eq]
    exact breakNext_inlineBy ..
  | false =>
    simp only [push, Bool.false_eq_true, if_false, printBlockStart_eq, hvoid, Bool.or_false]
    exact breakNext_blockBy ..

/-- The layout after a whole element whose content is not read as markup. -/
def onElement (o : MarkupOptions) (l : Layout) (tag : StartTag) (content close : Text) : Layout :=
  ((l.onStart o tag).print (·.glue content)).onEnd o close tag.name

/-- Without notes, what follows on the line follows directly. -/
theorem place_still {p : Printer} (hcontent : p.hasContent = true) (hstill : p.Still)
    (hnext : p.breakNext = false) (atom : Bool) :
    p.place o false atom = (p.settled, false) := by
  obtain ⟨hnewlines, hspace⟩ := hstill
  simp [Printer.place, hcontent, hnewlines, hspace, hnext]

/-- The end of an element that is on the line where it began follows directly. -/
theorem printed_end {p : Printer} (hcontent : p.hasContent = true) (hstill : p.Still)
    (hnext : p.breakNext = false) {e : OpenElement} (he : e.linesAtOpen = p.lines.length)
    {inline : Bool} {s : Text} (hend : inline = false ∨ p.fits o false s = true) (extra : Bool) :
    ∃ b, (if inline then p.inline o s false true else printEnd o p e extra s) =
      { p.settled with line := s.reverse ++ p.line, breakNext := b } := by
  have hplace := place_still (o := o) hcontent hstill hnext false
  have hcontent' : p.settled.hasContent = true := hcontent
  have hwrite : p.settled.write o s = { p.settled with line := s.reverse ++ p.line } := by
    rw [Printer.write, if_pos hcontent']
    rfl
  cases inline with
  | true =>
    have hfits : p.settled.fits o false s = true := hend.resolve_left (by simp)
    refine ⟨false, ?_⟩
    simp only [if_true, Printer.inline, hplace, hfits, Printer.spaced, hwrite, Bool.not_true,
      Bool.and_false, Bool.false_eq_true, if_false]
    rfl
  | false =>
    refine ⟨true, ?_⟩
    simp only [Bool.false_eq_true, if_false, printEnd, he, Nat.lt_irrefl, hplace, Printer.spaced,
      hwrite]

/-- Content stays content with more put at its end. -/
theorem hasContent_glue {p : Printer} (h : p.hasContent = true) (s : Text) :
    (p.glue s).hasContent = true := by
  simp only [Printer.hasContent, Text.allBlank, Printer.glue, List.all_append,
    Bool.not_eq_true', Bool.and_eq_false_iff] at h ⊢
  exact .inr h

/-- The end tag of such an element follows its content directly. -/
theorem exists_onEnd_glue {l : Layout} (hinked : l.printer.Inked) (hstill : l.printer.Still)
    (hnext : l.printer.breakNext = false) {name : Text} {indented : Bool} {rest : List OpenElement}
    (hstack : l.stack = ⟨name, l.printer.lines.length, indented⟩ :: rest)
    {content close : Text}
    (hend : Element.isInline name = false ∨ (l.printer.glue content).fits o false close = true) :
    ∃ depth b, (l.print (·.glue content)).onEnd o close name =
      ⟨{ l.printer.settled with
          line := close.reverse ++ (content.reverse ++ l.printer.line), depth, breakNext := b },
        rest⟩ := by
  have hcontent : (l.printer.glue content).hasContent = true :=
    hasContent_glue hinked.hasContent content
  let e : OpenElement := ⟨name, l.printer.lines.length, indented⟩
  have hunwind : unwind? name (l.print (·.glue content)).printer.depth
      (l.print (·.glue content)).stack = some (e, rest, depthAfter l.printer.depth e) := by
    simp [print, hstack, unwind?, Printer.glue, e]
  obtain ⟨b, hprinted⟩ := printed_end (o := o) (e := e)
    (p := { l.printer.glue content with depth := depthAfter l.printer.depth e }) hcontent hstill
    hnext rfl hend (o.extraLiners.contains ('/' :: name))
  refine ⟨depthAfter l.printer.depth e, b, ?_⟩
  rw [onEnd, hunwind]
  dsimp only [print]
  rw [hprinted]
  rfl

/-- The end tag of such an element goes to the next line because it does not fit. -/
def wrapsEnd (o : MarkupOptions) (l : Layout) (tag : StartTag) (content close : Text) : Bool :=
  !((l.onStart o tag).printer.glue content).fits o false close

/-- **An element whose content is not read as markup is printed again as it was**, if its
end tag fits. -/
theorem Replays.element {l : Layout} {tag tag' : StartTag} {s content close : Text}
    (h : Replays l (l.onStart o tag) (fun l => l.onStart o tag') s) (hname : tag'.name = tag.name)
    (hvoid : tag.void = false)
    (hend : Element.isInline tag.name = false ∨ l.wrapsEnd o tag content close = false)
    (hs : ¬ s.Blank) (htight : Text.Tight s) (hclose : ¬ close.Blank) (htight' : Text.Tight close) :
    Replays l (l.onElement o tag content close) (fun l => l.onElement o tag' content close)
      (s ++ content ++ close) := by
  obtain ⟨hnext, indented, rest, hstack⟩ := onStart_opens (o := o) l hvoid
  have hfits : Element.isInline tag.name = false ∨
      ((l.onStart o tag).printer.glue content).fits o false close = true := by
    simpa [wrapsEnd] using hend
  -- content and end tag follow directly, so the padding is that of the start tag
  obtain ⟨depth, b, hprinted⟩ := exists_onEnd_glue (h.inked hs htight) h.still hnext hstack hfits
  obtain ⟨pad, hpad, hwhole, hagain, hnotes⟩ := h.exists_pad
  refine ⟨fun _ _ => ?_, ?_, pad, hpad, ?_, ?_, hnotes⟩
  · obtain ⟨t, c, rfl, hc⟩ := htight'.exists_concat hclose
    rw [onElement, hprinted]
    refine ⟨c, t.reverse ++ (content.reverse ++ (l.onStart o tag).printer.line), ?_, hc⟩
    simp
  · rw [onElement, hprinted]
    exact ⟨rfl, rfl⟩
  · have happend : l.printer.whole ++ pad ++ (s ++ content ++ close) =
        (l.onStart o tag).printer.whole ++ content ++ close := by
      rw [hwhole]
      simp only [List.append_assoc]
    rw [happend, onElement, hprinted]
    simp [Printer.whole, Printer.settled]
  · unfold onElement
    rw [hname, hagain]

end Layout

end TemplateTidy
