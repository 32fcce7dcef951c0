import TemplateTidy.Text.Quoted

/-!
# The folder of a settings file

Opening a file by its path in a folder that holds files and empty folders. The
folder is also the home of the user, to which a tilde leads.
-/

namespace TemplateTidy

/-- The files of a folder, and the names of the folders in it. -/
structure Folder where
  files : List (Text × List UInt8) := []
  folders : List Text := []

/-- Why a file cannot be opened. -/
inductive OpenFault where
  | notFound
  | notADirectory
  | isADirectory
  | nameTooLong
  deriving Repr, DecidableEq

/-- The wording of a fault, without the path. -/
def OpenFault.message : OpenFault → Text
  | notFound => "[Errno 2] No such file or directory".toList
  | notADirectory => "[Errno 20] Not a directory".toList
  | isADirectory => "[Errno 21] Is a directory".toList
  | nameTooLong => "[Errno 36] File name too long".toList

namespace Folder

/-- A place on the way along a path. -/
inductive Place where
  /-- The folder itself. -/
  | here
  /-- An empty folder inside it. -/
  | inside
  /-- A folder above it, in which nothing is known. -/
  | above
  deriving Repr, DecidableEq

/-- Length of a name in bytes. -/
def nameSize (name : Text) : Nat :=
  (String.ofList name).utf8ByteSize

/-- Follows the components of a path from a place on. -/
def follow (f : Folder) : Place → List Text → Except OpenFault (List UInt8)
  | _, [] => .error .isADirectory
  | place, name :: rest =>
    if name = [] ∨ name = ['.'] then follow f place rest
    else if 255 < nameSize name then .error .nameTooLong
    else if name = "..".toList then
      -- from above there is no way back down
      follow f (if place = .inside then .here else .above) rest
    else
      match place with
      | .here =>
        match f.files.lookup name with
        -- even an empty component behind a file asks for a directory
        | some bytes => if rest.isEmpty then .ok bytes else .error .notADirectory
        | none => if f.folders.contains name then follow f .inside rest else .error .notFound
      | _ => .error .notFound

/-- The content of the file at a path. A path of 4096 bytes or more is not even
looked at. -/
def openFile (f : Folder) (path : Text) : Except OpenFault (List UInt8) :=
  if 4096 ≤ nameSize path then .error .nameTooLong
  else
    match path with
    | '/' :: rest => f.follow .above (Text.fields '/' rest)
    | ['~'] => f.follow .here []
    | '~' :: '/' :: rest => f.follow .here (Text.fields '/' rest)
    | _ => f.follow .here (Text.fields '/' path)

end Folder

end TemplateTidy
