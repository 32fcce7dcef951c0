import TemplateTidy.Proofs.Markup.Course

/-!
# Indentation follows the open elements

The depth at which the layout prints is the number of open elements that indent their
content. Closing elements and opening one keep it so, and the printer leaves both alone.

An element that is open has been opened by a tag, and everything outside of it has stayed
on the stack since. So where the end tag of the element closes it, together with all that
is left open inside, the same elements are open as when it was opened, and the end tag is
written at the depth of the start tag.

Main results: `Layout.InStep.step`, `Layout.exists_history`, `Layout.depth_follows_stack`.
-/

namespace TemplateTidy

namespace Layout

variable {o : MarkupOptions} {l l' : Layout} {x : Imprint}

/-! ## Depth and stack -/

/-- The depth is the number of open elements that indent their content. -/
def InStep (l : Layout) : Prop :=
  l.printer.depth = l.stack.countP (·.indented)

theorem inStep_start : ({} : Layout).InStep := rfl

/-- Closing elements keeps the depth in step. -/
theorem Closes.inStep (h : Closes l l') (hl : l.InStep) : l'.InStep := by
  obtain ⟨above, hstack, hprinter⟩ := h.exists_closed
  rw [InStep, hstack, List.countP_append] at hl
  rw [InStep, hprinter]
  dsimp only
  push_cast at hl
  omega

/-- So does opening one. -/
theorem InStep.push (h : l.InStep) (name : Text) (indented : Bool) :
    (l.push name indented).InStep := by
  rw [InStep] at h ⊢
  cases indented with
  | false => simpa [Layout.push] using h
  | true => simp [Layout.push, h]

/-- So does whatever an imprint opens. -/
theorem InStep.opening (h : l.InStep) (x : Imprint) : (x.opening o l).InStep := by
  unfold Imprint.opening
  split
  · exact h.push _ _
  · exact h

/-- **A step keeps depth and stack in step.** -/
theorem InStep.step (h : l.InStep) (hx : x.IsDivided) : (x.step o l).InStep := by
  obtain ⟨q, hcourse⟩ := Imprint.exists_course o l hx
  have hclosed := (Imprint.closes_closing l x).inStep h
  rw [hcourse.step_eq]
  refine InStep.opening ?_ x
  rw [InStep, hcourse.works.depth_eq]
  exact hclosed

/-- **The depth is in step after any imprints.** -/
theorem inStep_after {xs : List Imprint} (hxs : ∀ x ∈ xs, x.IsDivided) : (after o xs).InStep := by
  induction xs using List.reverseRecOn with
  | nil => exact inStep_start
  | append_singleton xs x ih =>
    rw [after_concat]
    exact (ih fun y hy => hxs y (by simp [hy])).step (hxs x (by simp))

/-! ## The history of an open element -/

/-- One of the imprints has opened an element, and it has been open ever since, with the same
elements outside of it. -/
structure History (o : MarkupOptions) (xs : List Imprint) (e : OpenElement)
    (rest : List OpenElement) (earlier : List Imprint) (y : Imprint) (between : List Imprint) :
    Prop where
  eq : xs = earlier ++ y :: between
  opens : y.opens? o = some (e.name, e.indented)
  opened : (after o (earlier ++ [y])).stack = e :: rest
  stays : ∀ front, front <+: between → e :: rest <:+ (after o (earlier ++ y :: front)).stack

/-- An imprint leaves the stack alone, or puts the element it opens on it. -/
theorem stack_opening (l : Layout) (x : Imprint) :
    (x.opens? o = none ∧ (x.opening o l).stack = l.stack) ∨ ∃ e : OpenElement,
      x.opens? o = some (e.name, e.indented) ∧ (x.opening o l).stack = e :: l.stack := by
  unfold Imprint.opening
  cases x.opens? o with
  | none => exact .inl ⟨rfl, rfl⟩
  | some opened => exact .inr ⟨⟨opened.1, l.printer.lines.length, opened.2⟩, rfl, rfl⟩

/-- An element that is still open has one more imprint in its history. -/
theorem History.concat {xs : List Imprint} {e : OpenElement} {rest : List OpenElement}
    {earlier between : List Imprint} {y : Imprint} (h : History o xs e rest earlier y between)
    (hx : e :: rest <:+ (x.step o (after o xs)).stack) :
    History o (xs ++ [x]) e rest earlier y (between ++ [x]) where
  eq := by
    rw [h.eq, List.append_assoc]
    rfl
  opens := h.opens
  opened := h.opened
  stays front hfront := by
    rcases List.prefix_concat_iff.mp hfront with rfl | hfront
    · rw [← after_concat, h.eq, List.append_assoc] at hx
      exact hx
    · exact h.stays front hfront

/-- **An open element has a history.** -/
theorem exists_history {xs : List Imprint} (hxs : ∀ x ∈ xs, x.IsDivided)
    {e : OpenElement} {rest : List OpenElement} (h : e :: rest <:+ (after o xs).stack) :
    ∃ earlier y between, History o xs e rest earlier y between := by
  induction xs using List.reverseRecOn with
  | nil => exact absurd (List.suffix_nil.mp h) (List.cons_ne_nil e rest)
  | append_singleton xs x ih =>
    rw [after_concat] at h
    have hbefore : ∀ y ∈ xs, y.IsDivided := fun y hy => hxs y (by simp [hy])
    obtain ⟨q, hcourse⟩ := Imprint.exists_course o (after o xs) (hxs x (by simp))
    -- the elements that are closed are the innermost ones
    have hclosed : (x.closing (after o xs)).stack <:+ (after o xs).stack := by
      obtain ⟨above, hstack, -⟩ := (Imprint.closes_closing (after o xs) x).exists_closed
      exact ⟨above, hstack.symm⟩
    have hold : e :: rest <:+ (x.closing (after o xs)).stack →
        ∃ earlier y between, History o (xs ++ [x]) e rest earlier y between := by
      intro hsuffix
      obtain ⟨earlier, y, between, hhistory⟩ := ih hbefore (hsuffix.trans hclosed)
      exact ⟨earlier, y, between ++ [x], hhistory.concat h⟩
    have hstack := congrArg Layout.stack hcourse.step_eq
    rcases stack_opening (o := o) ⟨q, (x.closing (after o xs)).stack⟩ x with
      ⟨-, hsame⟩ | ⟨e', hopens, hpush⟩
    · -- nothing is opened, and so the element has been open before
      rw [hstack, hsame] at h
      exact hold h
    · rw [hpush] at hstack
      rcases List.suffix_cons_iff.mp (hstack ▸ h) with hnew | hsuffix
      · -- the element is the one that is opened here
        obtain ⟨rfl, rfl⟩ := List.cons.inj hnew
        refine ⟨xs, x, [], ⟨rfl, hopens, ?_, fun front hfront => ?_⟩⟩
        · rw [after_concat, hstack]
        · rw [List.prefix_nil.mp hfront, after_concat, hstack]
      · exact hold hsuffix

/-- An end tag closes its element together with all that has been left open inside. -/
theorem stack_unwound {name : Text} {above rest : List OpenElement} {e : OpenElement}
    (hstack : l.stack = above ++ e :: rest) (hname : e.name = name)
    (habove : ∀ a ∈ above, a.name ≠ name) : (l.unwound name).stack = rest := by
  have hunwind : unwind? name l.printer.depth l.stack =
      some (e, rest, l.printer.depth - (above ++ [e]).countP (·.indented)) :=
    unwind?_eq_some_iff.mpr ⟨above, hstack, hname, habove, rfl⟩
  rw [unwound_of_some hunwind]

/-- Before the tag that opens an element is written, the elements outside of it are left. -/
theorem History.outside {xs : List Imprint} {e : OpenElement} {rest : List OpenElement}
    {earlier between : List Imprint} {y : Imprint} (h : History o xs e rest earlier y between)
    (hy : y.IsDivided) : (y.closing (after o earlier)).stack = rest := by
  obtain ⟨q, hcourse⟩ := Imprint.exists_course o (after o earlier) hy
  have hopened := h.opened
  rw [after_concat, hcourse.step_eq, Imprint.opening, h.opens] at hopened
  exact (List.cons.inj hopened).2

end Layout

/-! ## Start tags and end tags -/

/-- An imprint is written at a depth: the depth at which the printer stands when the elements
that end before it have been closed. -/
structure Imprint.IsWritten (o : MarkupOptions) (l : Layout) (x : Imprint) (depth : Int) :
    Prop where
  depth_eq : (x.closing l).printer.depth = depth
  writes : ∃ q column, Printer.Writes o (x.closing l).printer (x.written o depth column) q ∧
    x.step o l = x.opening o ⟨q, (x.closing l).stack⟩

/-- A tag is written at the depth that the stack has when what ends before it is closed. -/
theorem Imprint.isWritten {o : MarkupOptions} {l : Layout} {x : Imprint} (hl : l.InStep)
    (hx : x.IsDivided) (htag : x.ends? ≠ none ∨ x.opens? o ≠ none) :
    x.IsWritten o l ((x.closing l).stack.countP (·.indented)) := by
  obtain ⟨q, hcourse⟩ := exists_course o l hx
  obtain ⟨column, hwrites⟩ := hcourse.writes htag
  have hdepth : (x.closing l).printer.depth = (x.closing l).stack.countP (·.indented) :=
    (closes_closing l x).inStep hl
  exact ⟨hdepth, q, column, hdepth ▸ hwrites, hcourse.step_eq⟩

/-- **Indentation follows the open elements.** After any number of items the depth is the
number of open elements that indent their content. And wherever an end tag, of an element or
of a handlebars block, ends the innermost open element of its name, a tag before it has
opened that element, the element has been open ever since, and both tags are written at one
depth. -/
theorem Layout.depth_follows_stack (o : MarkupOptions) (s : Text) :
    (∀ items, (run o items).printer.depth = (run o items).stack.countP (·.indented) ∧
      0 ≤ (run o items).printer.depth) ∧
    ∀ (before : List Imprint) (x : Imprint) (more : List Imprint) (name : Text)
      (above : List OpenElement) (e : OpenElement) (rest : List OpenElement),
      imprintsOf o s = before ++ x :: more → x.ends? = some name →
      (after o before).stack = above ++ e :: rest → e.name = name →
      (∀ a ∈ above, a.name ≠ name) →
      ∃ earlier y between, History o before e rest earlier y between ∧
        ∃ depth, y.IsWritten o (after o earlier) depth ∧ x.IsWritten o (after o before) depth := by
  constructor
  · -- every imprint keeps depth and stack in step
    intro items
    have hstep : (run o items).InStep := by
      rw [← after_ofItems]
      exact inStep_after fun x hx => isDivided_of_mem_ofItems hx
    refine ⟨hstep, ?_⟩
    rw [hstep]
    exact Int.natCast_nonneg _
  · -- the open element has a history: the start tag that put it on the stack
    intro before x more name above e rest hsplit hends hstack hname habove
    have hdivided : ∀ y ∈ before ++ x :: more, y.IsDivided := by
      rw [← hsplit]
      exact fun y hy => isDivided_of_mem_ofItems hy
    have hbefore : ∀ y ∈ before, y.IsDivided := fun y hy => hdivided y (by simp [hy])
    obtain ⟨earlier, y, between, hhistory⟩ :=
      exists_history (o := o) hbefore (hstack ▸ List.suffix_append above (e :: rest))
    have hy : y.IsDivided := hbefore y (by simp [hhistory.eq])
    have hearlier : ∀ z ∈ earlier, z.IsDivided :=
      fun z hz => hbefore z (by simp [hhistory.eq, hz])
    refine ⟨earlier, y, between, hhistory, rest.countP (·.indented), ?_, ?_⟩
    · -- the start tag is written at the depth of the elements below its own
      have hopens := Imprint.isWritten (o := o) (inStep_after (o := o) hearlier) hy
        (.inr (by simp [hhistory.opens]))
      rwa [hhistory.outside hy] at hopens
    · -- and the end tag, once its element is taken off, at that of the same elements
      have houtside : (x.closing (after o before)).stack = rest := by
        rw [Imprint.closing_of_ends hends]
        exact stack_unwound hstack hname habove
      have hwritten := Imprint.isWritten (o := o) (inStep_after (o := o) hbefore)
        (hdivided x (by simp)) (.inl (by simp [hends]))
      rwa [houtside] at hwritten

/-- The tag that ends a handlebars block is written at the depth of the tag that opened it,
though a list item and an element inside it have been left open. -/
theorem Layout.depth_follows_stack_block :
    let o : MarkupOptions := { indentHandlebars := true }
    let s : Text := "<div>\x7b\x7b#if x\x7d\x7d<li>a<li><b>\x7b\x7b/if\x7d\x7d</div>".toList
    let x : Imprint := .blockTag "\x7b\x7b/if\x7d\x7d".toList
    let before := (imprintsOf o s).take 6
    let more : List Imprint := [.item (.endTag "</div>".toList "div".toList)]
    let above : List OpenElement := [⟨"b".toList, 3, false⟩, ⟨"li".toList, 3, true⟩]
    let e : OpenElement := ⟨blockName, 1, true⟩
    let rest : List OpenElement := [⟨"div".toList, 0, true⟩]
    imprintsOf o s = before ++ x :: more ∧ x.ends? = some blockName ∧
      (after o before).stack = above ++ e :: rest ∧ e.name = blockName ∧
      (∀ a ∈ above, a.name ≠ blockName) ∧
      ∃ earlier y between, History o before e rest earlier y between ∧
        ∃ depth, y.IsWritten o (after o earlier) depth ∧ x.IsWritten o (after o before) depth := by
  intro o s x before more above e rest
  have hsplit : imprintsOf o s = before ++ x :: more := by decide +kernel
  have hstack : (after o before).stack = above ++ e :: rest := by decide +kernel
  have habove : ∀ a ∈ above, a.name ≠ blockName := by decide
  exact ⟨hsplit, rfl, hstack, rfl, habove,
    (Layout.depth_follows_stack o s).2 before x more blockName above e rest hsplit rfl hstack rfl
      habove⟩

end TemplateTidy
