import TemplateTidy.Markup.Item
import TemplateTidy.Markup.Printer

/-!
# Printing start tags

A start tag is printed on one line or on several, depending on how its
attributes are to be wrapped and on the column at which it starts.
-/

namespace TemplateTidy

/-- The ways of wrapping attributes. -/
inductive AttributeWrap where
  /-- Attributes are left as they stand. -/
  | preserve
  /-- Every attribute but the first goes on a line of its own. -/
  | force
  /-- As `force`, with the attributes below each other. -/
  | forceAligned
  /-- Every attribute and the end of the tag go on lines of their own. -/
  | forceExpand
  /-- Attributes are wrapped where a line would be too long. -/
  | auto
  /-- As `auto`, with the attributes below each other. -/
  | alignedMultiple
  deriving Repr, DecidableEq

/-- The way of wrapping with the given name; an unknown one is as good as
`auto`. -/
def AttributeWrap.ofName (name : Text) : AttributeWrap :=
  match String.ofList name with
  | "preserve" | "preserve-aligned" => .preserve
  | "force" => .force
  | "force-aligned" => .forceAligned
  | "force-expand-multiline" => .forceExpand
  | "aligned-multiple" => .alignedMultiple
  | _ => .auto

namespace StartTag

/-- The parts of a start tag that are printed. -/
structure Parts where
  /-- The opening bracket and the name as it is written. -/
  head : Text
  attributes : List Text
  selfClosing : Bool
  deriving Repr, DecidableEq

/-- The part of a start tag between its name and its closing bracket. -/
def inner (raw : Text) : Text :=
  let rest := raw.drop (1 + (Tag.writtenName raw).length)
  if Text.endsWith ['>'] rest then rest.dropLast else rest

/-- The parts of a start tag. -/
def parts (templates : Bool) (raw : Text) : Parts :=
  let body := inner raw
  let trimmed := Text.trimRight body
  let selfClosing := Text.endsWith ['/'] trimmed
  -- without a slash the white space at the end stays, which a quote left open may hold
  { head := '<' :: Tag.writtenName raw
    attributes := Tag.attributes templates (if selfClosing then trimmed.dropLast else body)
    selfClosing }

namespace Parts

/-- What closes the tag. -/
def close (t : Parts) : Text :=
  if t.selfClosing then " />".toList else ">".toList

/-- The tag on one line. -/
def single (t : Parts) : Text :=
  match t.attributes with
  | [] => t.head ++ t.close
  | attrs => t.head ++ ' ' :: Text.join [' '] attrs ++ t.close

/-- The attributes on lines of their own, each behind a pad. -/
def stacked (pad : Text) (attrs : List Text) : Text :=
  attrs.flatMap fun a => '\n' :: pad ++ a

/-- Attributes one after the other from the column `width` on, with a line
break where one would go beyond the limit. -/
def filled (limit : Int) (pad : Text) : Nat → List Text → Text
  | _, [] => []
  | width, a :: rest =>
    if limit < (width + 1 + a.length : Int) then
      '\n' :: pad ++ a ++ filled limit pad (pad.length + a.length) rest
    else ' ' :: a ++ filled limit pad (width + 1 + a.length) rest

/-- The tag with line breaks between attributes that would go beyond the
limit. -/
def wrapped (t : Parts) (limit : Int) (pad : Text) (column : Nat) : Text :=
  match t.attributes with
  | [] => t.single
  | first :: rest =>
    let front := t.head ++ ' ' :: first
    front ++ filled limit pad (column + front.length) rest ++ t.close

/-- The tag with every attribute but the first on a line of its own. -/
def forced (t : Parts) (pad : Text) : Text :=
  match t.attributes with
  | first :: rest => t.head ++ ' ' :: first ++ stacked pad rest ++ t.close
  | [] => t.single

/-- The tag with every attribute and its end on lines of their own. -/
def expanded (t : Parts) (pad endPad : Text) : Text :=
  t.head ++ stacked pad t.attributes ++ '\n' :: endPad ++ Text.trimLeft t.close

end Parts

/-- A start tag as it is printed at a depth and a column. -/
def render (o : MarkupOptions) (depth : Int) (column : Nat) (tag : StartTag) : Text :=
  let wrap := AttributeWrap.ofName o.wrapAttributes
  if tag.verbatim || wrap = .preserve then tag.raw
  else
    let t := parts o.templates tag.raw
    let pad := o.indent (depth + 1)
    let aligned := List.replicate (column + t.head.length + 1) ' '
    let fits := o.wrapLineLength = 0 ∨ (column + t.single.length : Int) ≤ o.wrapLineLength
    -- a single attribute is never put on a line of its own
    if t.attributes.length < 2 ∧ (wrap = .force ∨ wrap = .forceAligned ∨ wrap = .forceExpand) then
      t.single
    else
      match wrap with
      | .forceExpand => t.expanded pad (o.indent depth)
      | .force => t.forced pad
      | .forceAligned => t.forced aligned
      | .alignedMultiple => if fits then t.single else t.wrapped o.wrapLineLength aligned column
      | _ => if fits then t.single else t.wrapped o.wrapLineLength pad column

end StartTag

end TemplateTidy
