import TemplateTidy.Text.Case

/-!
# Spellings of option keys

An option may be spelled in camel case (`tabSize`) or with underscores
(`tab_size`). The two functions lead from either spelling to the other.
-/

namespace TemplateTidy.Key

/-- An underscore goes before every capital letter. -/
def divided : Text → Text
  | [] => []
  | c :: cs => if c.isUpper then '_' :: c :: divided cs else c :: divided cs

/-- The key in small letters, with an underscore before every capital letter
but a leading one. -/
def snake : Text → Text
  | [] => []
  | c :: cs => Text.lower (c :: divided cs)

/-- The key with every part after an underscore capitalised, and the
underscores left out. -/
def camel (key : Text) : Text :=
  match Text.fields '_' key with
  | [] => []
  -- the first part stays as it is, capitals included
  | head :: rest => head ++ rest.flatMap Text.capitalize

/-- The spellings under which an option is looked up, in this order. -/
def spellings (key : Text) : List Text :=
  [key, camel key, snake key]

end TemplateTidy.Key
