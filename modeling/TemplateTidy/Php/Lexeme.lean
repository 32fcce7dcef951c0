import TemplateTidy.Text.Basic

/-!
# Lexemes

The smallest pieces a template is cut into. Of all that can be said about a
piece of code only its class matters here: whether it delimits code, is a
comment, cannot be understood, or is anything else.
-/

namespace TemplateTidy

/-- What a lexeme is. -/
inductive Lexeme.Class where
  /-- An opening or closing tag of a code segment. -/
  | delimiter
  | comment
  /-- A character that fits no rule. -/
  | error
  /-- Code or markup of any other kind. -/
  | plain
  deriving Repr, DecidableEq

/-- A piece of the text with its class. -/
structure Lexeme where
  kind : Lexeme.Class
  text : Text
  deriving Repr, DecidableEq

end TemplateTidy
