import Mathlib.Data.ENat.Lattice
import Mathlib.Logic.Relation
import TemplateTidy.Proofs.Markup.Imprint

/-!
# The course of a step

Whatever the layout prints, it goes the same way. First the elements are closed that end
before it. Then the printer works, and neither the stack nor the depth changes. At the end
an element may be opened.

The printer works in small acts, of which there are two kinds: it changes the line that is
being printed and its notes, or it finishes that line, with no more empty lines behind it
than the options allow. So what is to hold of the finished lines, or of the depth, need only
be shown of single acts.

Main results: `Layout.unwind?_eq_some_iff`, `Imprint.exists_course`, `Layout.after_keeps`.
-/

namespace TemplateTidy

namespace MarkupOptions

/-- How many empty lines of the source are kept in a row at most. -/
def keptLimit (o : MarkupOptions) : ℕ∞ :=
  if o.preserveNewlines then
    match o.maxPreserveNewlines with
    | none => ⊤
    | some limit => ((limit - 1).toNat : ℕ∞)
  else 0

/-- How many empty lines are put before a tag that is to have some. -/
def extraLimit (o : MarkupOptions) : ℕ∞ :=
  if o.extraLiners = [] then 0 else 1

/-- No more empty lines are kept than the limit says. -/
theorem keptLines_le_keptLimit (o : MarkupOptions) (n : Nat) :
    (o.keptLines n : ℕ∞) ≤ o.keptLimit := by
  unfold keptLines keptLimit
  cases o.preserveNewlines with
  | false => exact le_refl _
  | true =>
    cases o.maxPreserveNewlines with
    | none => exact le_top
    | some limit =>
      simp only [if_true]
      split
      · rw [Nat.cast_le]
        omega
      · exact zero_le

end MarkupOptions

namespace Printer

variable {o : MarkupOptions} {p q r : Printer} {t : Text}

/-! ## What the printer does -/

/-- One act of the printer. -/
inductive Acts (o : MarkupOptions) (p : Printer) : Printer → Prop
  /-- The present line and the notes change. -/
  | line (line : Text) (newlines : Nat) (space breakNext : Bool) :
      Acts o p { p with line, newlines, space, breakNext }
  /-- The present line is finished, with empty lines behind it. -/
  | newline (blank : Nat) (h : (blank : ℕ∞) ≤ max o.keptLimit o.extraLimit) :
      Acts o p (p.newline blank)

/-- Any number of acts. -/
def Works (o : MarkupOptions) : Printer → Printer → Prop :=
  Relation.ReflTransGen (Acts o)

/-- The printer works, and writes a text at the end. -/
structure Writes (o : MarkupOptions) (p : Printer) (t : Text) (q : Printer) : Prop where
  exists_works : ∃ r b, Works o p r ∧ q = { r.write o t with breakNext := b }

/-- No act of the printer changes the depth. -/
theorem Acts.depth_eq (h : Acts o p q) : q.depth = p.depth := by
  cases h with
  | line => rfl
  | newline => rfl

theorem Works.refl (p : Printer) : Works o p p :=
  Relation.ReflTransGen.refl

theorem Works.trans (h : Works o p q) (h' : Works o q r) : Works o p r :=
  Relation.ReflTransGen.trans h h'

/-- **What every act keeps, work keeps.** -/
theorem Works.keeps {P : Printer → Prop} (h : Works o p q)
    (hacts : ∀ {p q}, Acts o p q → P p → P q) (hp : P p) : P q := by
  induction h with
  | refl => exact hp
  | tail _ hact ih => exact hacts hact ih

/-- At work the printer stays at its depth. -/
theorem Works.depth_eq (h : Works o p q) : q.depth = p.depth :=
  h.keeps (P := fun r => r.depth = p.depth) (fun hact heq => hact.depth_eq.trans heq) rfl

/-- Changing the line and the notes is work. -/
theorem works_line (line : Text) (newlines : Nat) (space breakNext : Bool) :
    Works o p { p with line, newlines, space, breakNext } :=
  .single (.line line newlines space breakNext)

/-- So is a line break with few enough empty lines. -/
theorem works_newline {blank : Nat} (h : (blank : ℕ∞) ≤ max o.keptLimit o.extraLimit) :
    Works o p (p.newline blank) :=
  .single (.newline blank h)

theorem works_settled (p : Printer) : Works o p p.settled :=
  works_line p.line 0 false false

/-- So is a space in the line. -/
theorem works_spaced (p : Printer) (space : Bool) : Works o p (p.spaced space) := by
  cases space with
  | false => exact .refl p
  | true => exact works_line (' ' :: p.line) p.newlines p.space p.breakNext

theorem works_wrap (p : Printer) : Works o p (p.newline 0) :=
  works_newline zero_le

/-- So is a line break with the empty lines that are kept. -/
theorem works_kept (p : Printer) (n : Nat) : Works o p (p.newline (o.keptLines n)) :=
  works_newline ((o.keptLines_le_keptLimit n).trans (le_max_left _ _))

/-- A tag that is to have an empty line before it gets one. -/
theorem works_extra (p : Printer) {tag : Text} (h : o.extraLiners.contains tag = true) :
    Works o p (p.newline 1) := by
  refine works_newline (le_max_of_le_right ?_)
  have hne : o.extraLiners ≠ [] := by
    intro hnil
    rw [hnil] at h
    cases h
  rw [MarkupOptions.extraLimit, if_neg hne]
  exact le_refl _

/-- Placing something is work: it breaks the line, with as many empty lines as are kept. -/
theorem works_place (p : Printer) (block atom : Bool) : Works o p (p.place o block atom).1 := by
  have hsettled := works_settled (o := o) p
  unfold place
  dsimp only
  split
  · split
    · exact hsettled.trans (works_kept _ _)
    · exact hsettled
  · split
    · exact hsettled.trans (works_kept _ _)
    · exact hsettled

/-- So it is for a block. -/
theorem works_placeBlock (p : Printer) : Works o p (p.placeBlock o) :=
  works_place p true false

/-- Work may end with something that is written. -/
theorem Works.writes (h : Works o p q) (t : Text) : Writes o p t (q.write o t) :=
  ⟨q, q.breakNext, h, rfl⟩

/-- Whether the next thing is to start a line is no part of the writing. -/
theorem Writes.breaking (h : Writes o p t q) (b : Bool) :
    Writes o p t { q with breakNext := b } := by
  obtain ⟨r, -, hr, rfl⟩ := h.exists_works
  exact ⟨r, b, hr, rfl⟩

/-- Writing is work. -/
theorem Writes.works (h : Writes o p t q) : Works o p q := by
  obtain ⟨r, b, hr, rfl⟩ := h.exists_works
  exact hr.trans (works_line (r.write o t).line r.newlines r.space b)

/-! ## Ways of printing -/

/-- What flows with the text is written after some work. -/
theorem writes_inline (p : Printer) (s : Text) (atom wrappable : Bool) :
    Writes o p s (p.inline o s atom wrappable) := by
  have hplace := works_place (o := o) p false atom
  unfold inline
  dsimp only
  split
  · exact (hplace.trans (works_wrap _)).writes s
  · exact (hplace.trans (works_spaced _ _)).writes s

/-- So is what gets a line of its own. -/
theorem writes_block (p : Printer) (s : Text) : Writes o p s (p.block o s) :=
  ((works_placeBlock p).writes s).breaking true

end Printer

namespace Layout

open Printer (Works Writes)

variable {o : MarkupOptions}

/-- So is the end of an element. An empty line goes before it only if some tag is to have one. -/
theorem writes_printEnd (p : Printer) (e : OpenElement) {extra : Bool} (s : Text)
    (hextra : extra = true → ∃ tag, o.extraLiners.contains tag = true) :
    Writes o p s (printEnd o p e extra s) := by
  have hblock := Printer.works_placeBlock (o := o) p
  unfold printEnd
  dsimp only
  split
  · split
    · rename_i hwanted
      obtain ⟨tag, htag⟩ := hextra hwanted
      exact ((hblock.trans (Printer.works_extra _ htag)).writes s).breaking true
    · exact (hblock.writes s).breaking true
  · have hplace := Printer.works_place (o := o) p false false
    exact ((hplace.trans (Printer.works_spaced _ _)).writes s).breaking true

/-- A start tag is rendered at the depth at which it is written. -/
theorem writes_inlineStart (p : Printer) (tag : StartTag) :
    ∃ column, Writes o p (tag.render o p.depth column) (printInlineStart o p tag) := by
  have hplace := Printer.works_place (o := o) p false false
  unfold printInlineStart
  dsimp only
  rw [hplace.depth_eq]
  split
  · exact ⟨_, (hplace.trans (Printer.works_spaced _ _)).writes _⟩
  · have hwrap := hplace.trans (Printer.works_wrap _)
    rw [hwrap.depth_eq]
    exact ⟨_, hwrap.writes _⟩

/-- A start tag that gets a line of its own is written at the depth of the printer. -/
theorem writes_blockStart (p : Printer) (tag : StartTag) :
    ∃ column, Writes o p (tag.render o p.depth column) (printBlockStart o p tag) := by
  have hblock := Printer.works_placeBlock (o := o) p
  unfold printBlockStart
  dsimp only
  split
  · rename_i hextra
    have hline := hblock.trans (Printer.works_extra _ hextra)
    rw [hline.depth_eq]
    exact ⟨_, (hline.writes _).breaking _⟩
  · rw [hblock.depth_eq]
    exact ⟨_, (hblock.writes _).breaking _⟩

/-- An element that is copied whole is written as it is. -/
theorem writes_onVerbatim (p : Printer) (raw name : Text) :
    Writes o p raw (if Element.isInline name then p.inline o raw false false
      else p.block o raw) := by
  split
  · exact Printer.writes_inline p raw false false
  · exact Printer.writes_block p raw

/-! ## Closing elements -/

/-- The innermost element of a name is found behind all others, which are closed with it. -/
theorem unwind?_eq_some_iff {name : Text} {depth depth' : Int} {stack rest : List OpenElement}
    {e : OpenElement} :
    unwind? name depth stack = some (e, rest, depth') ↔
      ∃ above, stack = above ++ e :: rest ∧ e.name = name ∧ (∀ a ∈ above, a.name ≠ name) ∧
        depth' = depth - (above ++ [e]).countP (·.indented) := by
  induction stack generalizing depth with
  | nil => simp [unwind?]
  | cons a stack ih =>
    -- taking one element off the stack lowers the depth if it is indented
    have hdepth : ∀ n : Nat, depthAfter depth a - (n : Int) =
        depth - (n + if a.indented then 1 else 0 : Nat) := by
      intro n
      unfold depthAfter
      split <;> push_cast <;> omega
    rw [unwind?]
    split
    · rename_i hname
      simp only [Option.some.injEq, Prod.mk.injEq]
      constructor
      · rintro ⟨rfl, rfl, rfl⟩
        have hone := hdepth 0
        refine ⟨[], rfl, hname, by simp, ?_⟩
        simpa [List.countP_cons] using hone
      · rintro ⟨above, hstack, he, habove, rfl⟩
        -- nothing stands above the first element of the name
        cases above with
        | nil =>
          obtain ⟨rfl, rfl⟩ := List.cons.inj hstack
          have hone := hdepth 0
          refine ⟨rfl, rfl, ?_⟩
          simpa [List.countP_cons] using hone
        | cons b above =>
          obtain ⟨rfl, -⟩ := List.cons.inj hstack
          exact absurd hname (habove a (List.mem_cons_self ..))
    · rename_i hname
      rw [ih]
      constructor
      · rintro ⟨above, rfl, he, habove, rfl⟩
        refine ⟨a :: above, rfl, he, List.forall_mem_cons.mpr ⟨hname, habove⟩, ?_⟩
        rw [List.cons_append, List.countP_cons, hdepth]
      · rintro ⟨above, hstack, he, habove, rfl⟩
        cases above with
        | nil =>
          obtain ⟨rfl, -⟩ := List.cons.inj hstack
          exact absurd he hname
        | cons b above =>
          obtain ⟨rfl, rfl⟩ := List.cons.inj hstack
          refine ⟨above, rfl, he, (List.forall_mem_cons.mp habove).2, ?_⟩
          rw [List.cons_append, List.countP_cons, hdepth]

/-- The layout after the innermost element of a name has been closed, if there is one. -/
def unwound (l : Layout) (name : Text) : Layout :=
  match unwind? name l.printer.depth l.stack with
  | none => l
  | some (_, rest, depth) => ⟨{ l.printer with depth }, rest⟩

/-- Some of the innermost elements are closed, and the depth goes down by those of them that
indent their content. -/
structure Closes (l l' : Layout) : Prop where
  exists_closed : ∃ above, l.stack = above ++ l'.stack ∧
    l'.printer = { l.printer with depth := l.printer.depth - above.countP (·.indented) }

theorem Closes.refl (l : Layout) : Closes l l :=
  ⟨[], rfl, by simp⟩

/-- Taking the innermost element off the stack closes it. -/
theorem closes_pop (l : Layout) : Closes l l.pop := by
  obtain ⟨p, stack⟩ := l
  cases stack with
  | nil => exact .refl _
  | cons e rest =>
    refine ⟨[e], rfl, ?_⟩
    cases hindented : e.indented <;> simp [pop, depthAfter, hindented]

/-- Closing an element before another one of its name closes at most that one. -/
theorem closes_closed (l : Layout) (name : Text) : Closes l (l.closed name) := by
  unfold closed
  split
  · exact closes_pop l
  · exact .refl l

/-- Without an element of the name nothing is unwound. -/
theorem unwound_of_none {l : Layout} {name : Text}
    (h : unwind? name l.printer.depth l.stack = none) : l.unwound name = l := by
  rw [unwound, h]

/-- Otherwise the elements above it are closed with it. -/
theorem unwound_of_some {l : Layout} {name : Text} {e : OpenElement} {rest : List OpenElement}
    {depth : Int} (h : unwind? name l.printer.depth l.stack = some (e, rest, depth)) :
    l.unwound name = ⟨{ l.printer with depth }, rest⟩ := by
  rw [unwound, h]

/-- Unwinding closes the innermost elements. -/
theorem closes_unwound (l : Layout) (name : Text) : Closes l (l.unwound name) := by
  cases hunwind : unwind? name l.printer.depth l.stack with
  | none =>
    rw [unwound_of_none hunwind]
    exact .refl l
  | some found =>
    obtain ⟨e, rest, depth⟩ := found
    rw [unwound_of_some hunwind]
    obtain ⟨above, hstack, -, -, rfl⟩ := unwind?_eq_some_iff.mp hunwind
    exact ⟨above ++ [e], by simp [hstack], rfl⟩

end Layout

/-! ## The course of a step -/

namespace Imprint

open Printer (Works Writes)

variable {o : MarkupOptions}

/-- The name of the element that an imprint ends, if it is an end tag. -/
def ends? : Imprint → Option Text
  | item (.endTag _ name) => some name
  | blockTag s =>
    match s.drop 2 with
    | '/' :: _ => some Layout.blockName
    | _ => none
  | _ => none

/-- The element that an imprint opens, and whether its content is indented. -/
def opens? (o : MarkupOptions) : Imprint → Option (Text × Bool)
  | item (.startTag tag) =>
    if tag.void then none
    else some (tag.name,
      !Element.isInline tag.name && !(tag.name == "html".toList && !o.indentInnerHtml))
  | blockTag s =>
    match s.drop 2 with
    | '#' :: _ | '^' :: _ => some (Layout.blockName, true)
    | _ => none
  | _ => none

/-- The layout after the elements that end before an imprint have been closed. -/
def closing (l : Layout) (x : Imprint) : Layout :=
  match x with
  | item (.startTag tag) => l.closed tag.name
  | x =>
    match x.ends? with
    | some name => l.unwound name
    | none => l

/-- The layout after an imprint has opened an element. -/
def opening (o : MarkupOptions) (l : Layout) (x : Imprint) : Layout :=
  match x.opens? o with
  | some (name, indented) => l.push name indented
  | none => l

/-- Whatever the imprint, the elements that end before it are the innermost ones. -/
theorem closes_closing (l : Layout) (x : Imprint) : Layout.Closes l (x.closing l) := by
  unfold closing
  split
  · exact Layout.closes_closed l _
  · split
    · exact Layout.closes_unwound l _
    · exact .refl l

/-- An end tag closes the element that it ends. -/
theorem closing_of_ends {x : Imprint} {name : Text} (h : x.ends? = some name) (l : Layout) :
    x.closing l = l.unwound name := by
  unfold closing
  split
  · cases h
  · rw [h]

/-- A tag of a handlebars block that ends nothing closes nothing. -/
theorem closing_blockTag_of_none {s : Text} (h : (blockTag s).ends? = none) (l : Layout) :
    (blockTag s).closing l = l := by
  unfold closing
  split
  · rename_i heq
    cases heq
  · rw [h]

/-- What is written of an imprint at a depth and a column. -/
def written (o : MarkupOptions) (depth : Int) (column : Nat) : Imprint → Text
  | item (.startTag tag) => tag.render o depth column
  | x => x.raw

/-- The course of a step: elements are closed, the printer works, and an element is opened.
Tags that end or open an element are written. -/
structure Course (o : MarkupOptions) (l : Layout) (x : Imprint) (q : Printer) : Prop where
  works : Works o (x.closing l).printer q
  step_eq : x.step o l = x.opening o ⟨q, (x.closing l).stack⟩
  writes : x.ends? ≠ none ∨ x.opens? o ≠ none →
    ∃ column, Writes o (x.closing l).printer (x.written o (x.closing l).printer.depth column) q

/-- The course of an imprint that neither ends nor opens an element. -/
theorem Course.of_works {l l' : Layout} {x : Imprint} {q : Printer} (hclosing : x.closing l = l')
    (h : Works o l'.printer q) (hends : x.ends? = none) (hopens : x.opens? o = none)
    (hstep : x.step o l = ⟨q, l'.stack⟩) : Course o l x q := by
  subst hclosing
  refine ⟨h, ?_, fun htag => ?_⟩
  · rw [hstep, opening, hopens]
  · exact absurd htag (by simp [hends, hopens])

/-- The course of an imprint that is written. -/
theorem Course.of_writes {l l' : Layout} {x : Imprint} {q : Printer} (column : Nat)
    (hclosing : x.closing l = l')
    (h : Writes o l'.printer (x.written o l'.printer.depth column) q)
    (hstep : x.step o l = x.opening o ⟨q, l'.stack⟩) : Course o l x q := by
  subst hclosing
  exact ⟨h.works, hstep, fun _ => ⟨column, h⟩⟩

/-- The course of a start tag. -/
theorem exists_course_startTag (o : MarkupOptions) (l : Layout) (tag : StartTag) :
    ∃ q, Course o l (item (.startTag tag)) q := by
  have hopening : ∀ l : Layout, (item (.startTag tag)).opening o l = l.opened o tag := by
    intro l
    cases hvoid : tag.void <;> simp [opening, opens?, Layout.opened, hvoid]
  obtain ⟨column, hwrites⟩ : ∃ column, Writes o (l.closed tag.name).printer
      (tag.render o (l.closed tag.name).printer.depth column)
      (if Element.isInline tag.name then Layout.printInlineStart o (l.closed tag.name).printer tag
        else Layout.printBlockStart o (l.closed tag.name).printer tag) := by
    split
    · exact Layout.writes_inlineStart _ tag
    · exact Layout.writes_blockStart _ tag
  refine ⟨_, .of_writes column rfl hwrites ?_⟩
  rw [hopening]
  exact Layout.onStart_eq o l tag

/-- The course of an end tag, whether it ends something or not. -/
theorem exists_course_endTag (o : MarkupOptions) (l : Layout) (raw name : Text) :
    ∃ q, Course o l (item (.endTag raw name)) q := by
  cases hunwind : Layout.unwind? name l.printer.depth l.stack with
  | none =>
    -- nothing to close: the tag is printed where it stands
    have hwrites : Writes o l.printer raw
        (if Element.isInline name then l.printer.inline o raw false true
          else l.printer.block o raw) := by
      split
      · exact Printer.writes_inline _ raw false true
      · exact Printer.writes_block _ raw
    refine ⟨_, .of_writes 0 (Layout.unwound_of_none hunwind) hwrites ?_⟩
    rw [step, Layout.step, Layout.onEnd, hunwind]
    rfl
  | some found =>
    obtain ⟨e, rest, depth⟩ := found
    -- the elements above the one that ends are closed first, which only changes the depth
    have hwrites : Writes o { l.printer with depth := depth } raw
        (if Element.isInline name then
          Printer.inline o { l.printer with depth := depth } raw false true
        else Layout.printEnd o { l.printer with depth := depth } e
          (o.extraLiners.contains ('/' :: name)) raw) := by
      split
      · exact Printer.writes_inline _ raw false true
      · exact Layout.writes_printEnd _ e raw fun hextra => ⟨_, hextra⟩
    refine ⟨_, .of_writes 0 (Layout.unwound_of_some hunwind) hwrites ?_⟩
    rw [step, Layout.step, Layout.onEnd, hunwind]
    rfl

/-- A tag that opens a handlebars block. -/
theorem exists_course_of_opens {l : Layout} {s : Text} (hends : (blockTag s).ends? = none)
    (hopens : (blockTag s).opens? o = some (Layout.blockName, true))
    (hstep : (blockTag s).step o l =
      (l.print fun p => (p.placeBlock o).write o s).push Layout.blockName true) :
    ∃ q, Course o l (blockTag s) q := by
  have hblock := Printer.works_placeBlock (o := o) l.printer
  refine ⟨_, .of_writes 0 (closing_blockTag_of_none hends l) (hblock.writes s) ?_⟩
  rw [hstep, opening, hopens]
  rfl

/-- A tag that ends a handlebars block, or that ends nothing. -/
theorem exists_course_of_ends {l : Layout} {s : Text}
    (hends : (blockTag s).ends? = some Layout.blockName) (hopens : (blockTag s).opens? o = none)
    (hstep : (blockTag s).step o l =
      match Layout.unwind? Layout.blockName l.printer.depth l.stack with
      | none => l.print fun p => p.block o s
      | some (e, rest, depth) =>
        ⟨Layout.printEnd o { l.printer with depth := depth } e false s, rest⟩) :
    ∃ q, Course o l (blockTag s) q := by
  have hclosing := closing_of_ends hends l
  have hopening : ∀ l : Layout, (blockTag s).opening o l = l := by
    intro l
    rw [opening, hopens]
  cases hunwind : Layout.unwind? Layout.blockName l.printer.depth l.stack with
  -- no block is open: the tag is printed where it stands
  | none =>
    rw [hunwind] at hstep
    rw [Layout.unwound_of_none hunwind] at hclosing
    refine ⟨_, .of_writes 0 hclosing (Printer.writes_block _ s) ?_⟩
    rw [hstep, hopening]
    rfl
  -- a block is open: its depth is taken up first
  | some found =>
    obtain ⟨e, rest, depth⟩ := found
    rw [hunwind] at hstep
    rw [Layout.unwound_of_some hunwind] at hclosing
    have hend : Writes o { l.printer with depth := depth } s
        (Layout.printEnd o { l.printer with depth := depth } e false s) :=
      Layout.writes_printEnd _ e s fun hextra => nomatch hextra
    refine ⟨_, .of_writes 0 hclosing hend ?_⟩
    rw [hstep, hopening]

/-- A tag of a handlebars block opens it, ends it, or divides it. -/
theorem exists_course_blockTag (o : MarkupOptions) (l : Layout) (s : Text) :
    ∃ q, Course o l (blockTag s) q := by
  have hstep : (blockTag s).step o l = l.onBlockTag o s := rfl
  unfold Layout.onBlockTag at hstep
  -- what the tag does is told by the character behind its braces
  split at hstep
  · rename_i hmarker
    exact exists_course_of_opens (by rw [ends?, hmarker]; rfl) (by rw [opens?, hmarker]; rfl) hstep
  · rename_i hmarker
    exact exists_course_of_opens (by rw [ends?, hmarker]; rfl) (by rw [opens?, hmarker]; rfl) hstep
  · rename_i hmarker
    exact exists_course_of_ends (by rw [ends?, hmarker]; rfl) (by rw [opens?, hmarker]; rfl) hstep
  · rename_i hopens hinverts hends
    have hnone : (blockTag s).ends? = none ∧ (blockTag s).opens? o = none := by
      rw [ends?, opens?]
      constructor
      · split
        · rename_i hmarker
          exact absurd hmarker (hends _)
        · rfl
      · split
        · rename_i hmarker
          exact absurd hmarker (hopens _)
        · rename_i hmarker
          exact absurd hmarker (hinverts _)
        · rfl
    have hblock := Printer.works_placeBlock (o := o) l.printer
    -- its line is written anew, one level further out
    exact ⟨_, .of_works (closing_blockTag_of_none hnone.1 l)
      (hblock.trans (Printer.works_line _ _ _ _)) hnone.1 hnone.2 hstep⟩

/-- The imprint is no text that has been left in one piece. -/
def IsDivided (x : Imprint) : Prop :=
  ∀ raw, x ≠ item (.text raw)

/-- **The course of a step.** -/
theorem exists_course (o : MarkupOptions) (l : Layout) {x : Imprint} (hx : x.IsDivided) :
    ∃ q, Course o l x q := by
  cases x with
  | gap s => exact ⟨_, .of_works rfl (Printer.works_line _ _ _ _) rfl rfl rfl⟩
  | word s =>
    exact ⟨_, .of_writes 0 rfl (Printer.writes_inline l.printer s false true) rfl⟩
  | blockTag s => exact exists_course_blockTag o l s
  | item i =>
    cases i with
    | text raw => exact absurd rfl (hx raw)
    | startTag tag => exact exists_course_startTag o l tag
    | endTag raw name => exact exists_course_endTag o l raw name
    | comment raw | template raw =>
      exact ⟨_, .of_writes 0 rfl (Printer.writes_inline l.printer raw true false) rfl⟩
    | declaration raw =>
      exact ⟨_, .of_writes 0 rfl (Printer.writes_block l.printer raw) rfl⟩
    | body raw name => exact ⟨_, .of_works rfl (Printer.works_line _ _ _ _) rfl rfl rfl⟩
    | verbatim raw name =>
      exact ⟨_, .of_writes 0 rfl (Layout.writes_onVerbatim l.printer raw name) rfl⟩

end Imprint

namespace Layout

variable {o : MarkupOptions} {x : Imprint}

/-! ## Any number of imprints -/

/-- The layout after imprints. -/
def after (o : MarkupOptions) (xs : List Imprint) : Layout :=
  xs.foldl (Imprint.step o) {}

/-- One more imprint is one more step. -/
theorem after_concat (o : MarkupOptions) (xs : List Imprint) (x : Imprint) :
    after o (xs ++ [x]) = x.step o (after o xs) := by
  rw [after, List.foldl_append]
  rfl

/-- The layout after the imprints of items is the layout after the items. -/
theorem after_ofItems (o : MarkupOptions) (items : List Item) :
    after o (Imprint.ofItems o items) = run o items :=
  Imprint.foldl_ofItems o items {}

/-- Texts are divided. -/
theorem isDivided_of_mem_ofItems {items : List Item} (h : x ∈ Imprint.ofItems o items) :
    x.IsDivided := by
  obtain ⟨i, -, hx⟩ := List.mem_flatMap.mp h
  rintro raw rfl
  by_cases htext : ∃ raw', i = .text raw'
  · obtain ⟨raw', rfl⟩ := htext
    exact Bool.noConfusion (Imprint.formed_of_mem_ofText hx).2
  · rw [Imprint.ofItem_of_ne fun raw' heq => htext ⟨raw', heq⟩, List.mem_singleton] at hx
    exact htext ⟨raw, (Imprint.item.inj hx).symm⟩

/-- **What single acts keep holds throughout**, if it does not hang on the depth, which only
closing and opening elements changes. -/
theorem after_keeps {P : Printer → Prop} (hstart : P {})
    (hdepth : ∀ {p} depth, P p → P { p with depth })
    (hacts : ∀ {p q}, Printer.Acts o p q → P p → P q) {xs : List Imprint}
    (hxs : ∀ x ∈ xs, x.IsDivided) : P (after o xs).printer := by
  induction xs using List.reverseRecOn with
  | nil => exact hstart
  | append_singleton xs x ih =>
    have hbefore := ih fun y hy => hxs y (by simp [hy])
    obtain ⟨q, hcourse⟩ := Imprint.exists_course o (after o xs) (hxs x (by simp))
    obtain ⟨above, -, hprinter⟩ := (Imprint.closes_closing (after o xs) x).exists_closed
    have hclosed : P (x.closing (after o xs)).printer := by
      rw [hprinter]
      exact hdepth _ hbefore
    have hworked : P q := hcourse.works.keeps hacts hclosed
    rw [after_concat, hcourse.step_eq]
    unfold Imprint.opening
    split
    · exact hdepth _ hworked
    · exact hworked

end Layout

end TemplateTidy
