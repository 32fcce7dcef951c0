import TemplateTidy.Options.Lookup
import TemplateTidy.Trace

/-!
# Settings

What is to be done with a document. A setting of the wrong shape keeps its
default; where that may come as a surprise, a warning is logged.
-/

namespace TemplateTidy

/-- What is to be done with a document. -/
structure Settings where
  /-- Whether the markup is laid out. -/
  formatHtml : Bool := false
  /-- Patterns of the files that are left alone. -/
  exclude : List Json := []
  shortTags : Bool := false
  /-- The editor's record of layout options. -/
  html : Record := []

namespace Settings

/-- A warning about a setting that is ignored. -/
def warning (key : String) (value : Json) (expected : String) : LogEntry where
  source := .settings
  level := .warning
  message :=
    "Ignoring '".toList ++ key.toList ++ "' setting of type ".toList ++ value.typeName ++
      "; expected ".toList ++ expected.toList ++ ".".toList

/-- The patterns of a setting: one text or a list of texts, without the blank
ones. -/
def patternsOf (value : Json) : Option (List Text) :=
  match value with
  | .str s => some ([s].filter (!Text.allBlank ·))
  | .list items => (Json.texts? items).map (·.filter (!Text.allBlank ·))
  | _ => none

/-- The settings that a record holds, and the warnings about it. -/
def ofRecord (r : Record) : Settings × List LogEntry :=
  let excludeValue := r.option "exclude".toList (.list []) none
  let (exclude, excludeWarnings) :=
    match patternsOf excludeValue with
    | some patterns => (patterns, [])
    | none => ([], [warning "exclude" excludeValue "a list of globs"])
  let htmlValue := r.option "html".toList (.object []) none
  let (html, htmlWarnings) :=
    match htmlValue with
    | .object members => (members, [])
    | _ => ([], [warning "html" htmlValue "an object"])
  let settings : Settings :=
    { formatHtml := r.flag "formatHtml".toList false
      exclude := exclude.map .str
      shortTags := r.flag "shortTags".toList false
      html }
  (settings, excludeWarnings ++ htmlWarnings)

/-- The key under which layout options lie. -/
def htmlKey : Text :=
  "html".toList

/-- The settings of a file, with all keys in the same spelling. -/
def ofFile (members : Record) : Record :=
  Record.ofMembers (members.map fun (k, v) => (Key.snake k, v))

/-- Puts one override over the settings. Layout options are merged, everything
else is replaced. -/
def override (r : Record) (key : Text) (value : Json) : Record :=
  let key := Key.snake key
  match value, r.get? htmlKey with
  -- by keys as they are spelled: both spellings of one option may be left side by side
  | .object new, some (.object old) =>
    if key = htmlKey then r.set key (.object (Record.setAll old new)) else r.set key value
  | _, _ => r.set key value

/-- Puts overrides over the settings of a file, one after the other. -/
def merge (file overrides : Record) : Record :=
  overrides.foldl (fun r (k, v) => override r k v) (ofFile file)

end Settings

end TemplateTidy
