import TemplateTidy.Context.Range
import TemplateTidy.Marker.Codec
import TemplateTidy.Token.Basic

/-!
# Disguising code segments

Every code segment of a template is turned into a comment that the layout of
markup leaves alone:

* an opening tag is put behind the start of the comment,
* what stands in the segment is escaped,
* a closing tag is put before the end of the comment, and the line break it
  holds stays outside,
* markup is left as it is.

The style of the comment is chosen where the segment opens and kept until it
closes. A segment that the template leaves open is closed at the end.
-/

namespace TemplateTidy

/-- The state between two tokens of a template. -/
structure Disguise where
  /-- The style of the open segment. -/
  segment : Option Style := none
  /-- Characters of the template that have been passed. -/
  offset : Nat := 0
  /-- The last token lies in a segment and does not close it. -/
  unclosed : Bool := false
  deriving Repr, DecidableEq

namespace Disguise

/-- The style of comment at an offset of the template. -/
def styleAt (ranges : List ContextRange) (offset : Nat) : Style :=
  if ContextRange.covers ranges offset then .code else .markup

/-- The style at the present place: that of the open segment, if there is
one. -/
def style (ranges : List ContextRange) (d : Disguise) : Style :=
  d.segment.getD (styleAt ranges d.offset)

/-- A closing tag with the end of its comment before the line break. -/
def closeTag (close wrapper : Text) : Text :=
  let bare := Text.trimRight close
  bare ++ wrapper ++ close.drop bare.length

/-- A token in disguise. -/
def hide (k : Codec) (ranges : List ContextRange) (d : Disguise) (t : Token) : Text :=
  match t.kind with
  -- the style of a segment is told by where it opens, whatever is open before it
  | .openTag | .openTagWithEcho => k.wrapStart (styleAt ranges d.offset) ++ t.text
  | .closeTag => closeTag t.text (k.wrapEnd (d.style ranges))
  | .inlineHtml => t.text
  | .code | .comment | .other => k.encode (d.style ranges) t.text

/-- The state after a token. -/
def next (ranges : List ContextRange) (d : Disguise) (t : Token) : Disguise where
  segment :=
    match t.kind with
    | .openTag | .openTagWithEcho => some (styleAt ranges d.offset)
    | .closeTag => none
    | _ => d.segment
  offset := d.offset + t.text.length
  unclosed :=
    match t.kind with
    | .closeTag | .inlineHtml => false
    | _ => true

/-- The closing tag that is put at the end of a segment left open. -/
def suppliedClose : Text :=
  "?>".toList

/-- What is put at the end of the template. -/
def finish (k : Codec) (ranges : List ContextRange) (d : Disguise) : Text :=
  if d.unclosed then suppliedClose ++ k.wrapEnd (d.style ranges) else []

/-- The tokens in disguise, from a state on. -/
def run (k : Codec) (ranges : List ContextRange) (d : Disguise) : List Token → Text
  | [] => d.finish k ranges
  | t :: ts => d.hide k ranges t ++ run k ranges (d.next ranges t) ts

end Disguise

/-- A template with its code segments turned into comments. -/
def disguise (k : Codec) (ranges : List ContextRange) (tokens : List Token) : Text :=
  Disguise.run k ranges {} tokens

namespace Token

/-- The last token lies in a segment and does not close it. -/
def leavesOpen (tokens : List Token) : Bool :=
  match tokens.getLast? with
  | none => false
  | some t => t.kind != .closeTag && t.kind != .inlineHtml

end Token

end TemplateTidy
