import TemplateTidy.Proofs.Markup.Composition
import TemplateTidy.Proofs.Markup.Course
import TemplateTidy.Proofs.Markup.Rounds

/-!
# Formatting with checks

The layout closes elements, looks at the innermost one and takes start tags apart, and the
formatter scans markup in rounds. Each of these can be done with a check: whether an element
is open, whether the tag begins like a tag, whether the rounds come to an end. Done so, the
formatter gives the same result, or the same fault of the indentation. None of the checks
ever fails, on whatever markup.

An end tag closes as many elements as stand inside of the one it has found; the end of a
handlebars block closes elements until one of its kind is innermost. Both depend on what
was found before, and a lemma for each says that this is enough.

Main results: `Layout.checkedStep_eq`, `Layout.checkedRun_eq`, `checkedFormat_eq`,
`formatMarkup_fails_by_indentation`.
-/

namespace TemplateTidy

/-- What formatting with checks can run into. -/
inductive Fault where
  /-- The scanner has not stopped. -/
  | endless
  /-- No element is open. -/
  | nothingOpen
  /-- A start tag does not begin like one. -/
  | nameless
  /-- The tag of a handlebars block is too short. -/
  | unmarked
  | indent (fault : IndentFault)
  deriving Repr, DecidableEq

/-! ## The names of tags -/

/-- The name of a tag at the front of a text. It begins with a letter. -/
def Tag.nameOf? (s : Text) : Option Text :=
  match s with
  | '<' :: '/' :: c :: rest => if c.isAlpha then some ((c :: rest).takeWhile inName) else none
  | '<' :: c :: rest => if c.isAlpha then some ((c :: rest).takeWhile inName) else none
  | _ => none

/-- A start tag that is taken apart has a name. -/
def StartTag.checkNamed (o : MarkupOptions) (tag : StartTag) : Except Fault Unit :=
  if tag.isKept o || (Tag.nameOf? tag.raw).isSome then .ok () else .error .nameless

/-- **A start tag begins like one.** -/
theorem StartTag.nameOf?_raw {tag : StartTag} (h : (Item.startTag tag).Formed) :
    Tag.nameOf? tag.raw = some (Tag.writtenName tag.raw) := by
  obtain ⟨c, rest, hraw, hc⟩ := h
  have hslash : c ≠ '/' := by
    rintro rfl
    exact absurd hc (by decide)
  rw [StartTag.writtenName_eq hraw, hraw]
  unfold Tag.nameOf?
  split
  · rename_i heq
    exact absurd (List.cons.inj (List.cons.inj heq).2).1 hslash
  · rename_i heq
    obtain ⟨rfl, rfl⟩ := List.cons.inj (List.cons.inj heq).2
    rw [if_pos hc]
  · rename_i hother
    exact absurd rfl (hother c rest)

/-- A tag that begins like one passes the check for a name. -/
theorem StartTag.checkNamed_eq (o : MarkupOptions) {tag : StartTag}
    (h : (Item.startTag tag).Formed) : tag.checkNamed o = .ok () := by
  rw [checkNamed, nameOf?_raw h, Option.isSome_some, Bool.or_true, if_pos rfl]

namespace Layout

variable {o : MarkupOptions} {l : Layout}

/-! ## Closing with checks -/

/-- The innermost open element. -/
def innermost (l : Layout) : Except Fault OpenElement :=
  match l.stack with
  | [] => .error .nothingOpen
  | e :: _ => .ok e

/-- Closes the innermost element, and gives it. -/
def closeInnermost (l : Layout) : Except Fault (OpenElement × Layout) := do
  let e ← l.innermost
  return (e, l.pop)

/-- Closes so many elements. -/
def closeSeveral : Nat → Layout → Except Fault Layout
  | 0, l => .ok l
  | n + 1, l => do
    let (_, l) ← l.closeInnermost
    closeSeveral n l

/-- Closes elements until one of the name is innermost. -/
def closeUntil (name : Text) (p : Printer) : List OpenElement → Except Fault Layout
  | [] => .error .nothingOpen
  | e :: rest =>
    if e.name = name then .ok ⟨p, e :: rest⟩
    else closeUntil name { p with depth := depthAfter p.depth e } rest

theorem innermost_cons (p : Printer) (e : OpenElement) (rest : List OpenElement) :
    innermost ⟨p, e :: rest⟩ = .ok e := rfl

/-- Closing the innermost element gives it, and takes its indentation back. -/
theorem closeInnermost_cons (p : Printer) (e : OpenElement) (rest : List OpenElement) :
    closeInnermost ⟨p, e :: rest⟩ =
      .ok (e, ⟨{ p with depth := depthAfter p.depth e }, rest⟩) := rfl

/-- The elements inside of the one that is found are closed, and then that one is. -/
theorem closeSeveral_of_unwind? {name : Text} {p : Printer} {stack rest : List OpenElement}
    {e : OpenElement} {depth : Int} (h : unwind? name p.depth stack = some (e, rest, depth)) :
    ∃ n, stack.findIdx? (·.name == name) = some n ∧
      (closeSeveral n ⟨p, stack⟩ >>= closeInnermost) = .ok (e, ⟨{ p with depth }, rest⟩) := by
  induction stack generalizing p with
  | nil => cases h
  | cons a stack ih =>
    rw [unwind?] at h
    split at h
    · rename_i hname
      obtain ⟨rfl, rfl, rfl⟩ : a = e ∧ stack = rest ∧ depthAfter p.depth a = depth := by
        simpa using h
      exact ⟨0, by simp [List.findIdx?_cons, hname], rfl⟩
    · rename_i hname
      obtain ⟨n, hfind, hclose⟩ := ih (p := { p with depth := depthAfter p.depth a }) h
      exact ⟨n + 1, by simp [List.findIdx?_cons, hname, hfind], hclose⟩

/-- An element that cannot be unwound is not on the stack. -/
theorem findIdx?_of_unwind?_eq_none {name : Text} {depth : Int} {stack : List OpenElement}
    (h : unwind? name depth stack = none) : stack.findIdx? (·.name == name) = none := by
  induction stack generalizing depth with
  | nil => rfl
  | cons a stack ih =>
    rw [unwind?] at h
    split at h
    · cases h
    · rename_i hname
      simp [List.findIdx?_cons, hname, ih h]

/-- Where one of the name is open, elements are closed until it is innermost, and then it
is closed. -/
theorem closeUntil_of_unwind? {name : Text} {p : Printer} {stack rest : List OpenElement}
    {e : OpenElement} {depth : Int} (h : unwind? name p.depth stack = some (e, rest, depth)) :
    (closeUntil name p stack >>= closeInnermost) = .ok (e, ⟨{ p with depth }, rest⟩) := by
  induction stack generalizing p with
  | nil => cases h
  | cons a stack ih =>
    rw [unwind?] at h
    rw [closeUntil]
    split at h
    · rename_i hname
      obtain ⟨rfl, rfl, rfl⟩ : a = e ∧ stack = rest ∧ depthAfter p.depth a = depth := by
        simpa using h
      rw [if_pos hname]
      rfl
    · rename_i hname
      rw [if_neg hname]
      exact ih (p := { p with depth := depthAfter p.depth a }) h

/-! ## Printing with checks -/

/-- Opens an element, and looks at it. -/
def checkedPush (l : Layout) (name : Text) (indented : Bool) : Except Fault Layout := do
  let l := { l with stack := ⟨name, l.printer.lines.length, indented⟩ :: l.stack }
  let e ← l.innermost
  return if e.indented then l.print fun p => { p with depth := p.depth + 1 } else l

/-- Closes the innermost element if it ends where another of its name begins. It is looked
at only if there is one. -/
def checkedClosed (l : Layout) (name : Text) : Except Fault Layout :=
  if Element.isSelfTerminating name && !l.stack.isEmpty then do
    let e ← l.innermost
    if e.name = name then
      let (_, l) ← l.closeInnermost
      return l
    else return l
  else .ok l

/-- A start tag. -/
def checkedStart (o : MarkupOptions) (l : Layout) (tag : StartTag) : Except Fault Layout := do
  let l ← l.checkedClosed tag.name
  tag.checkNamed o
  let inline := Element.isInline tag.name
  let l := l.print fun p =>
    if inline then printInlineStart o p tag else printBlockStart o p tag
  if tag.void then return l
  else
    l.checkedPush tag.name (!inline && !(tag.name == "html".toList && !o.indentInnerHtml))

/-- An end tag. -/
def checkedEnd (o : MarkupOptions) (l : Layout) (raw name : Text) : Except Fault Layout :=
  match l.stack.findIdx? (·.name == name) with
  | none =>
    .ok (l.print fun p =>
      if Element.isInline name then p.inline o raw false true else p.block o raw)
  | some inside => do
    let (e, l) ← closeSeveral inside l >>= closeInnermost
    return l.print fun p =>
      if Element.isInline name then p.inline o raw false true
      else printEnd o p e (o.extraLiners.contains ('/' :: name)) raw

/-- A tag of a handlebars block. -/
def checkedBlockTag (o : MarkupOptions) (l : Layout) (tag : Text) : Except Fault Layout :=
  match tag.drop 2 with
  | [] => .error .unmarked
  | '/' :: _ =>
    if l.stack.any (·.name == blockName) then do
      let (e, l) ← closeUntil blockName l.printer l.stack >>= closeInnermost
      return l.print fun p => printEnd o p e false tag
    else .ok (l.print fun p => p.block o tag)
  | _ => .ok (l.onBlockTag o tag)

/-- Prints an imprint. -/
def checkedStep (o : MarkupOptions) (l : Layout) : Imprint → Except Fault Layout
  | .item (.startTag tag) => l.checkedStart o tag
  | .item (.endTag raw name) => l.checkedEnd o raw name
  | .blockTag s => l.checkedBlockTag o s
  | x => .ok (x.step o l)

/-- Prints all items. -/
def checkedRun (o : MarkupOptions) (items : List Item) : Except Fault Layout :=
  (Imprint.ofItems o items).foldlM (checkedStep o) {}

/-- Opening an element does not fail: there is one to look at. -/
theorem checkedPush_eq (l : Layout) (name : Text) (indented : Bool) :
    l.checkedPush name indented = .ok (l.push name indented) := by
  cases indented with
  | false => rfl
  | true => rfl

/-- Closing an element before another one of its name does not fail. -/
theorem checkedClosed_eq (l : Layout) (name : Text) :
    l.checkedClosed name = .ok (l.closed name) := by
  obtain ⟨p, stack⟩ := l
  rw [checkedClosed, closed]
  cases Element.isSelfTerminating name with
  | false => rfl
  | true =>
    cases stack with
    | nil => rfl
    | cons e rest =>
      -- with an element open, both checks succeed
      by_cases hname : e.name = name
      · simp [innermost_cons, closeInnermost_cons, hname, pop, bind, Except.bind, pure, Except.pure]
      · simp [innermost_cons, hname, bind, Except.bind, pure, Except.pure]

/-- No start tag looks at an element that is not there. -/
theorem checkedStart_eq (o : MarkupOptions) (l : Layout) {tag : StartTag}
    (h : (Item.startTag tag).Formed) : l.checkedStart o tag = .ok (l.onStart o tag) := by
  rw [checkedStart, checkedClosed_eq, onStart_eq, opened]
  simp only [bind, Except.bind, StartTag.checkNamed_eq o h]
  split
  · rfl
  · exact checkedPush_eq _ _ _

/-- An end tag closes only what is open. -/
theorem checkedEnd_eq (o : MarkupOptions) (l : Layout) (raw name : Text) :
    l.checkedEnd o raw name = .ok (l.onEnd o raw name) := by
  rw [checkedEnd, onEnd]
  cases hunwind : unwind? name l.printer.depth l.stack with
  | none => rw [findIdx?_of_unwind?_eq_none hunwind]
  | some found =>
    obtain ⟨e, rest, depth⟩ := found
    obtain ⟨n, hfind, hclose⟩ := closeSeveral_of_unwind? (p := l.printer) hunwind
    rw [hfind]
    dsimp only
    rw [show closeSeveral n l >>= closeInnermost = _ from hclose]
    rfl

/-- So does the end of a handlebars block. -/
theorem checkedBlockTag_eq (o : MarkupOptions) (l : Layout) {tag : Text} (h : tag.drop 2 ≠ []) :
    l.checkedBlockTag o tag = .ok (l.onBlockTag o tag) := by
  unfold checkedBlockTag
  split
  · rename_i hnil
    exact absurd hnil h
  · rename_i hslash
    rw [onBlockTag, hslash]
    dsimp only
    -- the check looks for the block on the stack before anything is popped
    cases hunwind : unwind? blockName l.printer.depth l.stack with
    | none =>
      have hnone := findIdx?_of_unwind?_eq_none hunwind
      rw [List.findIdx?_eq_none_iff] at hnone
      rw [if_neg (by simpa using hnone)]
      rfl
    | some found =>
      obtain ⟨e, rest, depth⟩ := found
      obtain ⟨above, hstack, hname, -⟩ := unwind?_eq_some_iff.mp hunwind
      rw [if_pos (by simp [hstack, hname]), closeUntil_of_unwind? hunwind]
      rfl
  · rfl

/-! ## Imprints that can be checked -/

/-- A tag of a handlebars block is longer than its braces. -/
theorem drop_two_of_blockTag {s : Text} {n : Nat} (h : blockTag s = some n) :
    (s.take n).drop 2 ≠ [] := by
  unfold blockTag at h
  split at h
  · rename_i c more
    dsimp only at h
    obtain ⟨lead, hlead, h⟩ := Option.bind_eq_some_iff.mp h
    -- a sign of one character or the word `else` stands behind the braces
    have hlong : 3 ≤ lead := by
      split at hlead
      · rw [← Option.some.inj hlead]
      · split at hlead
        · rw [← Option.some.inj hlead]
          decide
        · cases hlead
    split at h
    · have hn := Option.some.inj h
      obtain ⟨m, rfl⟩ : ∃ m, n = m + 3 := ⟨n - 3, by omega⟩
      simp
    · cases h
  · cases h

/-- The tags of handlebars blocks in a text are longer than their braces. -/
theorem drop_two_of_mem_ofBlocks {raw s : Text} (h : .blockTag s ∈ Imprint.ofBlocks raw) :
    s.drop 2 ≠ [] := by
  have hwords : ∀ raw, Imprint.blockTag s ∉ Imprint.ofWords raw := by
    intro raw hmem
    obtain ⟨chunk, -, hchunk⟩ := List.mem_map.mp hmem
    cases chunk <;> cases hchunk
  fun_induction Imprint.ofBlocks raw with
  | case1 raw hnone => exact absurd h (hwords raw)
  | case2 raw i n hsome hguard => exact absurd h (hwords raw)
  | case3 raw i n hsome hguard ih =>
    rcases List.mem_append.mp h with h | h
    · exact absurd h (hwords _)
    · rcases List.mem_cons.mp h with heq | h
      · rw [Imprint.blockTag.inj heq]
        exact drop_two_of_blockTag (Text.search?_spec hsome)
      · exact ih h

/-- Tags of handlebars blocks stand in texts only. -/
theorem drop_two_of_mem_ofItems {items : List Item} {s : Text}
    (h : .blockTag s ∈ Imprint.ofItems o items) : s.drop 2 ≠ [] := by
  obtain ⟨i, -, hi⟩ := List.mem_flatMap.mp h
  cases i with
  | text raw =>
    rw [Imprint.ofItem] at hi
    split at hi
    · exact drop_two_of_mem_ofBlocks hi
    · obtain ⟨chunk, -, hchunk⟩ := List.mem_map.mp hi
      cases chunk <;> cases hchunk
  | _ => cases List.mem_singleton.mp hi

/-- **No step fails a check.** -/
theorem checkedStep_eq (o : MarkupOptions) (l : Layout) {x : Imprint}
    (hstart : ∀ tag, x = .item (.startTag tag) → (Item.startTag tag).Formed)
    (hblock : ∀ s, x = .blockTag s → s.drop 2 ≠ []) : l.checkedStep o x = .ok (x.step o l) := by
  cases x with
  | gap s | word s => rfl
  | blockTag s => exact checkedBlockTag_eq o l (hblock s rfl)
  | item i =>
    cases i with
    | startTag tag => exact checkedStart_eq o l (hstart tag rfl)
    | endTag raw name => exact checkedEnd_eq o l raw name
    | _ => rfl

/-- **No run fails a check**, if its start tags begin like start tags. -/
theorem checkedRun_eq (o : MarkupOptions) {items : List Item}
    (h : ∀ tag, .startTag tag ∈ items → (Item.startTag tag).Formed) :
    checkedRun o items = .ok (run o items) := by
  have hstart : ∀ tag, .item (.startTag tag) ∈ Imprint.ofItems o items →
      (Item.startTag tag).Formed := by
    intro tag htag
    obtain ⟨i, hi, hmem⟩ := List.mem_flatMap.mp htag
    by_cases htext : ∃ raw, i = .text raw
    · obtain ⟨raw, rfl⟩ := htext
      exact Bool.noConfusion (Imprint.formed_of_mem_ofText hmem).2
    · rw [Imprint.ofItem_of_ne fun raw heq => htext ⟨raw, heq⟩, List.mem_singleton] at hmem
      exact h tag (Imprint.item.inj hmem ▸ hi)
  have hblock : ∀ s, .blockTag s ∈ Imprint.ofItems o items → s.drop 2 ≠ [] :=
    fun s hs => drop_two_of_mem_ofItems hs
  rw [checkedRun, run, ← Imprint.foldl_ofItems]
  -- from here on only what the list holds matters, and the induction is over any layout
  generalize Imprint.ofItems o items = xs at hstart hblock
  generalize ({} : Layout) = l
  induction xs generalizing l with
  | nil => rfl
  | cons x xs ih =>
    rw [List.foldlM_cons, checkedStep_eq o l (fun tag htag => hstart tag (by simp [htag]))
      fun s hs => hblock s (by simp [hs])]
    exact ih (fun tag htag => hstart tag (List.mem_cons_of_mem x htag))
      (fun s hs => hblock s (List.mem_cons_of_mem x hs)) _

end Layout

/-! ## The formatter -/

/-- The items that the scanner gives out in a number of rounds that markup of this length
must not exceed. -/
def checkedScan (o : MarkupOptions) (s : Text) : Except Fault (List Item) :=
  match Item.Scanner.rounds o (s.length + 1) { todo := s } with
  | none => .error .endless
  | some c => .ok c.finish

/-- Lays out markup, with all checks. -/
def checkedFormat (o : MarkupOptions) (s : Text) : Except Fault Text :=
  if Text.allBlank s then .ok []
  else
    match o.indentFault? with
    | some fault => .error (.indent fault)
    | none => do
      let items ← checkedScan o s
      let l ← Layout.checkedRun o items
      return Text.join ['\n'] l.printer.finish ++ if o.endWithNewline then ['\n'] else []

/-- **The scanner stops** within the rounds it is given, with the items of the markup. -/
theorem checkedScan_eq (o : MarkupOptions) (s : Text) : checkedScan o s = .ok (Item.scan o s) := by
  obtain ⟨c, hrounds, hfinish⟩ := Item.exists_rounds_eq_scan o s
  rw [checkedScan, hrounds]
  exact congrArg Except.ok hfinish

/-- **The checks never fail.** -/
theorem checkedFormat_eq (o : MarkupOptions) (s : Text) :
    checkedFormat o s = (formatMarkup o s).mapError .indent := by
  have hrun : Layout.checkedRun o (Item.scan o s) = .ok (Layout.run o (Item.scan o s)) :=
    Layout.checkedRun_eq o fun tag htag => Item.formed_of_mem_scan htag
  unfold checkedFormat formatMarkup
  split
  · rfl
  · cases o.indentFault? with
    | some fault => rfl
    | none =>
      dsimp only
      rw [checkedScan_eq]
      simp only [bind, Except.bind, hrun]
      rfl

/-- **Only the indentation can make the formatter fail**, whatever the markup is. Below the
limit of machine words it gives a result exactly if the markup is blank or the indentation
can be made. The scanner stops after one more round than there are characters, every start
tag that it gives out begins like one, and nothing is closed or looked at that is not open. -/
theorem formatMarkup_fails_by_indentation {o : MarkupOptions} (hsize : o.indentSize < 2 ^ 63)
    (s : Text) :
    ((∃ out, formatMarkup o s = .ok out) ↔
        s.Blank ∨ (-2 ^ 63 ≤ o.indentSize ∧ o.indentSize * o.indentChar.length < 2 ^ 63)) ∧
      checkedFormat o s = (formatMarkup o s).mapError .indent ∧
      (∃ c, Item.Scanner.rounds o (s.length + 1) { todo := s } = some c ∧
        c.finish = Item.scan o s) ∧
      (∀ tag, .startTag tag ∈ Item.scan o s →
        Tag.nameOf? tag.raw = some (Tag.writtenName tag.raw)) ∧
      Layout.checkedRun o (Item.scan o s) = .ok (Layout.run o (Item.scan o s)) := by
  have hformed : ∀ tag, .startTag tag ∈ Item.scan o s → (Item.startTag tag).Formed :=
    fun tag htag => Item.formed_of_mem_scan htag
  exact ⟨exists_formatMarkup_iff_of_lt hsize s, checkedFormat_eq o s,
    Item.exists_rounds_eq_scan o s, fun tag htag => StartTag.nameOf?_raw (hformed tag htag),
    Layout.checkedRun_eq o hformed⟩

/-- Superfluous, missing and unfinished tags, under a negative width and a way of wrapping
that there is not. -/
theorem formatMarkup_fails_by_indentation_broken :
    let o : MarkupOptions :=
      { indentSize := -3, wrapAttributes := "zigzag".toList, indentHandlebars := true }
    let s : Text := "</b><div <p>\x7b\x7b/if\x7d\x7d<li>a<li>b</ul>c < d<".toList
    o.indentSize < 2 ^ 63 ∧ (∃ out, formatMarkup o s = .ok out) ∧
      checkedFormat o s =
        .ok "</b>\n<div <p>\n\x7b\x7b/if\x7d\x7d\n<li>a\n<li>b\n</ul>\nc < d<".toList := by
  intro o s
  obtain ⟨hresult, hchecked, -⟩ := formatMarkup_fails_by_indentation (o := o) (by decide) s
  have hout : ∃ out, formatMarkup o s = .ok out := hresult.mpr (.inr (by decide))
  refine ⟨by decide, hout, hchecked.trans ?_⟩
  decide +kernel

/-- Widths below the limit for which the formatter fails on plain markup: one is no machine
word, and the other makes the indentation too long for one. -/
theorem formatMarkup_fails_below_limit :
    let o : MarkupOptions := { indentSize := -2 ^ 63 - 1 }
    let o' : MarkupOptions := { indentChar := "  ".toList, indentSize := 2 ^ 62 }
    (o.indentSize < 2 ^ 63 ∧ formatMarkup o "<p>x</p>".toList = .error .widthOutOfRange) ∧
      o'.indentSize < 2 ^ 63 ∧ formatMarkup o' "<p>x</p>".toList = .error .tooLong := by
  decide +kernel

end TemplateTidy
