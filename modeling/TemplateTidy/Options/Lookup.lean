import TemplateTidy.Json.Value
import TemplateTidy.Options.Key
import TemplateTidy.Text.Blank

/-!
# Looking up options

Reading single options from an editor's record. A missing option, a null and a
value of the wrong kind all count as not given. A truth value is never taken
for a number.
-/

namespace TemplateTidy

/-- The kinds of value an option may ask for. -/
inductive Json.Kind where
  | int
  | str
  | bool
  | list
  | object
  | real
  deriving Repr, DecidableEq

/-- The value is of the given kind. -/
def Json.Kind.admits : Json.Kind → Json → Bool
  | .int, .int _ => true
  | .str, .str _ => true
  | .bool, .bool _ => true
  | .list, .list _ => true
  | .object, .object _ => true
  | .real, .real _ => true
  | _, _ => false

namespace Record

/-- The value under the first spelling of the key that the record holds. -/
def find? (r : Record) (key : Text) : Option Json :=
  (Key.spellings key).findSome? r.get?

/-- The value given for an option: not null, and of the wanted kind. -/
def given? (r : Record) (key : Text) (kind : Option Json.Kind) : Option Json :=
  match r.find? key with
  -- a null under the first spelling hides what the others hold
  | none | some .null => none
  | some v => if kind.all (·.admits v) then some v else none

/-- The value of an option, or the default where none is given. -/
def option (r : Record) (key : Text) (default : Json) (kind : Option Json.Kind) : Json :=
  (r.given? key kind).getD default

/-- A truth value, or the default. -/
def flag (r : Record) (key : Text) (default : Bool) : Bool :=
  match r.given? key (some .bool) with
  | some (.bool b) => b
  | _ => default

/-- A whole number, if one is given. -/
def number? (r : Record) (key : Text) : Option Int :=
  match r.given? key (some .int) with
  | some (.int i) => some i
  | _ => none

/-- A text, if one is given. -/
def text? (r : Record) (key : Text) : Option Text :=
  match r.given? key (some .str) with
  | some (.str s) => some s
  | _ => none

/-- Element names as they are compared: trimmed, in small letters, and none of
them blank. -/
def tagNames (names : List Text) : List Text :=
  (names.filter fun name => !(Text.trim name).isEmpty).map fun name => Text.lower (Text.trim name)

/-- A list of element names, written as a list or with commas between them. An
empty text is an empty list; any other shape yields the default. -/
def tags (r : Record) (key : Text) (default : List Text) : List Text :=
  match r.find? key with
  | some (.str s) => tagNames (Text.fields ',' s)
  | some (.list items) =>
    match Json.texts? items with
    | some names => tagNames names
    | none => default
  | _ => default

end Record

end TemplateTidy
