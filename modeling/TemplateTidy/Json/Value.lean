import TemplateTidy.Decimal.Shortest
import TemplateTidy.Text.Basic

/-!
# JSON values

The values that settings files and editor records are made of. Whole numbers
and floating-point numbers are kept apart, because an option that wants a
whole number does not take `4.0`. The members of an object keep the order in
which their keys first appeared.
-/

namespace TemplateTidy

/-- A JSON value. A floating-point number is given by its 64 bits. -/
inductive Json where
  | null
  | bool (b : Bool)
  | int (i : Int)
  | real (bits : UInt64)
  | str (s : Text)
  | list (items : List Json)
  | object (members : List (Text × Json))
  deriving Repr, Inhabited

/-- The members of an object in order of first appearance, each key once. -/
abbrev Record := List (Text × Json)

namespace Record

/-- The value under a key. -/
def get? (r : Record) (key : Text) : Option Json :=
  r.lookup key

/-- Sets the value under a key. A key that is already there keeps its place. -/
def set : Record → Text → Json → Record
  | [], key, v => [(key, v)]
  | (k, w) :: rest, key, v => if k = key then (k, v) :: rest else (k, w) :: set rest key v

/-- Sets the members one after the other, so that the last value of a repeated
key wins. -/
def setAll (r : Record) (members : List (Text × Json)) : Record :=
  members.foldl (fun r (k, v) => set r k v) r

/-- The record with the given members, the last value of a repeated key
winning. -/
def ofMembers (members : List (Text × Json)) : Record :=
  setAll [] members

end Record

namespace Json

/-- The name of a value's type in messages. -/
def typeName : Json → Text
  | null => "NoneType".toList
  | bool _ => "bool".toList
  | int _ => "int".toList
  | real _ => "float".toList
  | str _ => "str".toList
  | list _ => "list".toList
  | object _ => "dict".toList

/-- The text of a list of texts; nothing else is one. -/
def texts? : List Json → Option (List Text)
  | [] => some []
  | str s :: rest => (texts? rest).map (s :: ·)
  | _ :: _ => none

end Json

end TemplateTidy
