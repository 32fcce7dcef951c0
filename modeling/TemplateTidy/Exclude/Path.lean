import TemplateTidy.Text.Basic

/-!
# Paths

Paths are texts with slashes between their components. The normal form of a
path has no empty and no `.` components, and no `..` component that the one
before it could take up. Two slashes at the front, unlike three or more, are
kept.
-/

namespace TemplateTidy.Path

/-- The component that leads to the parent. -/
def parent : Text :=
  "..".toList

/-- The path starts at the root. -/
def isAbsolute (path : Text) : Bool :=
  ['/'].isPrefixOf path

/-- The slashes at the front of the normal form. -/
def leadingSlashes : Text → Text
  | '/' :: '/' :: '/' :: _ => ['/']
  | '/' :: '/' :: _ => ['/', '/']
  | '/' :: _ => ['/']
  | _ => []

/-- The components that name something. -/
def components (path : Text) : List Text :=
  (Text.fields '/' path).filter fun c => c != [] && c != ['.']

/-- Adds a component to those of a normal form, which are given last one
first. -/
def descend (rooted : Bool) (above : List Text) (c : Text) : List Text :=
  if c ≠ parent then c :: above
  else
    match above with
    -- above the root there is nothing
    | [] => if rooted then [] else [parent]
    | d :: rest => if d = parent then parent :: above else rest

/-- The components of the normal form. -/
def resolved (path : Text) : List Text :=
  ((components path).foldl (descend (isAbsolute path)) []).reverse

/-- The normal form of a path. -/
def normalize (path : Text) : Text :=
  match leadingSlashes path ++ Text.join ['/'] (resolved path) with
  | [] => ['.']
  | p => p

/-- A path as seen from a directory. -/
def under (directory path : Text) : Text :=
  if isAbsolute path then path
  else if directory.isEmpty || Text.endsWith ['/'] directory then directory ++ path
  else directory ++ '/' :: path

/-- The absolute form of a path in a working directory. -/
def absolute (cwd path : Text) : Text :=
  normalize (under cwd path)

/-- The longest list of components that two lists begin with. -/
def common : List Text → List Text → List Text
  | a :: as, b :: bs => if a = b then a :: common as bs else []
  | _, _ => []

/-- The deepest path that leads to both of two paths. -/
def commonPath (a b : Text) : Text :=
  -- one slash at the front, also where both paths have two
  (if isAbsolute a then ['/'] else []) ++ Text.join ['/'] (common (components a) (components b))

/-- The way from one path to another, both of them seen from a working
directory: up to what they have in common, and down again. -/
def relative (cwd base path : Text) : Text :=
  let steps (p : Text) := (Text.fields '/' (absolute cwd p)).filter (· != [])
  let shared := (common (steps base) (steps path)).length
  match List.replicate ((steps base).length - shared) parent ++ (steps path).drop shared with
  | [] => ['.']
  | way => Text.join ['/'] way

end TemplateTidy.Path
