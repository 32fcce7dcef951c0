import TemplateTidy.Markup.Attributes
import TemplateTidy.Text.Alphanumeric

/-!
# The layout of markup

Prints the items of markup one after the other. Elements that are open lie on
a stack, the innermost first; those on it that indent their content determine
the depth at which things are printed. Nothing about the markup is taken for
granted: end tags may be missing, superfluous or in the wrong order.
-/

namespace TemplateTidy

/-- An element, or a handlebars block, that has been opened. -/
structure OpenElement where
  name : Text
  /-- How many lines were finished when it was opened. -/
  linesAtOpen : Nat
  /-- Its content is indented. -/
  indented : Bool
  deriving Repr, DecidableEq

/-- The printer and the open elements, the innermost one first. -/
structure Layout where
  printer : Printer := {}
  stack : List OpenElement := []
  deriving Repr, DecidableEq

namespace Layout

/-! ## The stack -/

/-- The depth after an element has been closed. -/
def depthAfter (depth : Int) (e : OpenElement) : Int :=
  if e.indented then depth - 1 else depth

/-- Closes the innermost element of the given name and all elements inside it.
Gives that element, the elements that stay open, and the depth; nothing if no
such element is open. -/
def unwind? (name : Text) (depth : Int) :
    List OpenElement → Option (OpenElement × List OpenElement × Int)
  | [] => none
  | e :: rest =>
    let depth := depthAfter depth e
    if e.name = name then some (e, rest, depth) else unwind? name depth rest

/-- Changes the printer. -/
def print (l : Layout) (f : Printer → Printer) : Layout :=
  { l with printer := f l.printer }

/-- Opens an element. -/
def push (l : Layout) (name : Text) (indented : Bool) : Layout :=
  { printer := { l.printer with depth := if indented then l.printer.depth + 1 else l.printer.depth }
    stack := ⟨name, l.printer.lines.length, indented⟩ :: l.stack }

/-- Closes the innermost element. -/
def pop (l : Layout) : Layout :=
  match l.stack with
  | [] => l
  | e :: rest =>
    { printer := { l.printer with depth := depthAfter l.printer.depth e }, stack := rest }

/-- Prints the end of an element that has been closed. It starts a line if the
element has been printed on more than one, and may have an empty line before it
then. -/
def printEnd (o : MarkupOptions) (p : Printer) (e : OpenElement) (extra : Bool) (s : Text) :
    Printer :=
  let p :=
    if e.linesAtOpen < p.lines.length then
      let p := p.placeBlock o
      if extra then p.newline 1 else p
    -- an element on one line is closed there, however long the line gets
    else
      let (p, space) := p.place o false false
      p.spaced space
  { p.write o s with breakNext := true }

/-! ## Tags -/

/-- Prints the start tag of an inline element. -/
def printInlineStart (o : MarkupOptions) (p : Printer) (tag : StartTag) : Printer :=
  let (p, space) := p.place o false false
  let written := tag.render o p.depth (p.startColumn o space)
  if p.fits o space written then (p.spaced space).write o written
  else
    -- rendered anew, since aligned attributes depend on the column
    let p := p.newline 0
    p.write o (tag.render o p.depth (p.startColumn o false))

/-- Prints the start tag of a block element. -/
def printBlockStart (o : MarkupOptions) (p : Printer) (tag : StartTag) : Printer :=
  let p := p.placeBlock o
  let p := if o.extraLiners.contains tag.name then p.newline 1 else p
  let p := p.write o (tag.render o p.depth (p.startColumn o false))
  { p with breakNext := p.breakNext || tag.void }

/-- A start tag. -/
def onStart (o : MarkupOptions) (l : Layout) (tag : StartTag) : Layout :=
  -- a list item, say, ends the one before it, but only if nothing is open in between
  let l :=
    if Element.isSelfTerminating tag.name && (l.stack.head?.map (·.name)) == some tag.name then
      l.pop
    else l
  let inline := Element.isInline tag.name
  let l := l.print fun p =>
    if inline then printInlineStart o p tag else printBlockStart o p tag
  if tag.void then l
  else l.push tag.name (!inline && !(tag.name == "html".toList && !o.indentInnerHtml))

/-- An end tag. One without an open element is printed and changes nothing
else. -/
def onEnd (o : MarkupOptions) (l : Layout) (raw name : Text) : Layout :=
  match unwind? name l.printer.depth l.stack with
  | none =>
    l.print fun p => if Element.isInline name then p.inline o raw false true else p.block o raw
  | some (e, rest, depth) =>
    -- the tag is written at the depth of the element, not at that of its content
    let p := { l.printer with depth }
    let extra := o.extraLiners.contains ('/' :: name)
    { printer :=
        if Element.isInline name then p.inline o raw false true else printEnd o p e extra raw
      stack := rest }

/-! ## Text -/

/-- Prints the words of a text. -/
def words (o : MarkupOptions) (l : Layout) (raw : Text) : Layout :=
  (Chunk.ofText raw).foldl (fun l chunk =>
    match chunk with
    | .gap s => l.print (·.noteGap s)
    | .word s => l.print (·.inline o s false true)) l

/-- Recognises a tag of a handlebars block: one that opens, inverts, closes or
divides it. -/
def blockTag : Recogniser := fun s =>
  match s with
  | '\x7b' :: '\x7b' :: c :: rest =>
    let lead :=
      if c == '#' || c == '^' || c == '/' then some 3
      else if "else".toList.isPrefixOf (c :: rest) && Text.endsWord (rest.drop 3) then some 6
      else none
    lead.bind fun lead =>
      let inside := (s.drop lead).takeWhile fun c => c != '\x7b' && c != '\x7d'
      let n := lead + inside.length
      if "\x7d\x7d".toList.isPrefixOf (s.drop n) then some (n + 2) else none
  | _ => none

/-- The name under which handlebars blocks lie on the stack. No element can
have it. -/
def blockName : Text :=
  "\x7b\x7b".toList

/-- Prints a tag of a handlebars block. -/
def onBlockTag (o : MarkupOptions) (l : Layout) (tag : Text) : Layout :=
  match tag.drop 2 with
  | '#' :: _ | '^' :: _ => (l.print fun p => (p.placeBlock o).write o tag).push blockName true
  | '/' :: _ =>
    match unwind? blockName l.printer.depth l.stack with
    | none => l.print fun p => p.block o tag
    | some (e, rest, depth) =>
      { printer := printEnd o { l.printer with depth } e false tag, stack := rest }
  | _ =>
    -- between the two halves of a block: one step out, and the stack stays as it is
    l.print fun p =>
      let p := p.placeBlock o
      { p with line := (o.indent (max (p.depth - 1) 0) ++ tag).reverse, breakNext := true }

/-- A text in which tags of handlebars blocks stand out. -/
def blocks (o : MarkupOptions) (l : Layout) (raw : Text) : Layout :=
  match Text.search? blockTag raw with
  | none => l.words o raw
  | some (i, n) =>
    -- a tag that is found is never empty and lies within the text
    if raw.length < i + n ∨ n = 0 then l.words o raw
    else
      let l := (l.words o (raw.take i)).onBlockTag o ((raw.drop i).take n)
      l.blocks o (raw.drop (i + n))
termination_by raw.length
decreasing_by
  simp only [List.length_drop]
  omega

/-- A text. -/
def onText (o : MarkupOptions) (l : Layout) (raw : Text) : Layout :=
  if o.indentHandlebars then l.blocks o raw else l.words o raw

/-! ## Everything else -/

/-- An element that is copied as it stands. -/
def onVerbatim (o : MarkupOptions) (l : Layout) (raw name : Text) : Layout :=
  l.print fun p => if Element.isInline name then p.inline o raw false false else p.block o raw

/-- Prints one item. -/
def step (o : MarkupOptions) (l : Layout) : Item → Layout
  | .text raw => l.onText o raw
  | .startTag tag => l.onStart o tag
  | .endTag raw name => l.onEnd o raw name
  | .comment raw | .template raw => l.print (·.inline o raw true false)
  | .declaration raw => l.print (·.block o raw)
  | .body raw _ => l.print (·.glue raw)
  | .verbatim raw name => l.onVerbatim o raw name

/-- Prints all items. -/
def run (o : MarkupOptions) (items : List Item) : Layout :=
  items.foldl (step o) {}

end Layout

end TemplateTidy
