import TemplateTidy.Context.Range
import TemplateTidy.Html.TagEvent
import TemplateTidy.Token.Stream

/-!
# Elements with a context of their own

Finds the ranges of a template that certain elements cover. Only markup can
open or close an element: the document is read with every code segment blanked
out, which keeps all offsets.
-/

namespace TemplateTidy

namespace Token

/-- The text of a token as markup sees it: all but line feeds is blanked out in
a code segment. -/
def visible (t : Token) : Text :=
  match t.kind with
  | .inlineHtml => t.text
  | _ => t.text.map fun c => if c = '\n' then c else ' '

/-- The markup of a template. -/
def markupOf (tokens : List Token) : Text :=
  tokens.flatMap visible

end Token

namespace ContextRange

/-- The elements in which comments are those of code. -/
def codeElements : List Text :=
  ["script".toList, "style".toList]

/-- The ranges that the elements cover, given the start of the one that is
open. An element inside another one is ignored, and any of the elements may
close another. -/
def collect (elements : List Text) : Option Nat → List Html.TagEvent → List ContextRange
  | none, [] => []
  | some start, [] => [⟨start, none⟩]
  | pending, e :: es =>
    if elements.contains e.name then
      match pending, e.closes with
      | none, false => collect elements (some e.offset) es
      | some start, true => ⟨start, some e.offset⟩ :: collect elements none es
      -- a start inside an open element, or an end without one
      | _, _ => collect elements pending es
    else collect elements pending es

/-- The ranges of a template that the given elements cover. -/
def find (elements : List Text) (tokens : List Token) :
    Except Html.Fault (List ContextRange) := do
  let events ← Html.tagEvents (Token.markupOf tokens)
  return collect (elements.map Text.lower) none events

end ContextRange

end TemplateTidy
