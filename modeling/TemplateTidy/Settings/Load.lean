import TemplateTidy.Json.Reader
import TemplateTidy.Settings.Basic
import TemplateTidy.Settings.Folder
import TemplateTidy.Text.Utf8

/-!
# Loading settings

Settings come from a JSON file, from overrides, or from both. A file that
cannot be read, or that does not hold an object, is an error.
-/

namespace TemplateTidy

/-- Why settings could not be loaded. -/
inductive SettingsError where
  | unreadable (path : Text) (fault : OpenFault)
  | notJson (path : Text) (error : Json.ReadError)
  | notAnObject (path : Text)
  /-- The path holds a NUL. -/
  | nulInPath
  /-- The file is not UTF-8. -/
  | undecodable (fault : Utf8.Fault)
  /-- The file holds a number that is too long to be read. -/
  | numberTooLong (error : Json.ReadError)
  deriving Repr, DecidableEq

/-- The wording of an error. -/
def SettingsError.message : SettingsError → Text
  | unreadable path fault =>
    "Failed to read settings file '".toList ++ path ++ "': ".toList ++ fault.message ++
      ": ".toList ++ Text.quoted path
  | notJson path error =>
    "Settings file '".toList ++ path ++ "' is not valid JSON: ".toList ++ error.message
  | notAnObject path =>
    "Settings file '".toList ++ path ++ "' must contain a JSON object.".toList
  | nulInPath => "embedded null byte".toList
  | undecodable fault => fault.message
  | numberTooLong error => error.message

namespace Settings

/-- The text with every kind of line break turned into a line feed. -/
def unifyBreaks : Text → Text
  | '\r' :: '\n' :: rest => '\n' :: unifyBreaks rest
  | '\r' :: rest => '\n' :: unifyBreaks rest
  | c :: rest => c :: unifyBreaks rest
  | [] => []

/-- The members of a settings file. -/
def readFile (folder : Folder) (path : Text) : Except SettingsError Record := do
  if path.contains '\x00' then throw .nulInPath
  let bytes ← (folder.openFile path).mapError (.unreadable path)
  let text ← (Utf8.decode bytes).mapError .undecodable
  match Json.read (unifyBreaks text) with
  | .ok (.object members) => return members
  | .ok _ => throw (.notAnObject path)
  -- no fault of the notation, and so not worded like one
  | .error (.tooManyDigits n) => throw (.numberTooLong (.tooManyDigits n))
  | .error e => throw (.notJson path e)

/-- Loads settings from an optional file and overrides, with the warnings that
are logged. An empty path means no file. -/
def load (folder : Folder) (path : Option Text) (overrides : Record) :
    Except SettingsError (Settings × List LogEntry) := do
  let file ← match path with
    | none | some [] => pure []
    | some path => readFile folder path
  return ofRecord (merge file overrides)

end Settings

end TemplateTidy
