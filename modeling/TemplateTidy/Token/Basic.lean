import TemplateTidy.Text.Basic

/-!
# Tokens

What a piece of a template means to the rest of the program: markup, a tag that
opens or closes a code segment, or something inside a segment. The tokens of a
template divide it without gaps.
-/

namespace TemplateTidy

/-- What a token is. -/
inductive Token.Kind where
  /-- Opens a segment. -/
  | openTag
  /-- Opens a segment whose value is printed. -/
  | openTagWithEcho
  /-- Closes a segment, with at most one line break after it. -/
  | closeTag
  /-- Markup and text outside of segments. -/
  | inlineHtml
  | code
  | comment
  | other
  deriving Repr, DecidableEq

namespace Token.Kind

/-- The token opens a segment. -/
def isOpen : Token.Kind → Bool
  | openTag | openTagWithEcho => true
  | _ => false

/-- Neighbouring tokens of this kind are one token. -/
def isMergeable : Token.Kind → Bool
  | inlineHtml | code | comment | other => true
  | _ => false

end Token.Kind

/-- A part of a template with the offset of its first character. -/
structure Token where
  kind : Token.Kind
  text : Text
  start : Nat
  deriving Repr, DecidableEq

namespace Token

/-- The offset after the last character. -/
def stop (t : Token) : Nat :=
  t.start + t.text.length

end Token

end TemplateTidy
