import TemplateTidy.Exclude.Path
import TemplateTidy.Exclude.Pattern
import TemplateTidy.Json.Value

/-!
# Which files are excluded

A list of patterns is a specification: the last pattern that matches a file
decides. A file below the root of a project is matched by its path from the
root on, any other one by its absolute path.
-/

namespace TemplateTidy

/-- Patterns in the order in which they are given. -/
abbrev ExcludeSpec := List Pattern

namespace ExcludeSpec

/-- Reads patterns. White space around them does not count, and blank ones are
skipped. -/
def ofLines (lines : List Text) : Except PatternError ExcludeSpec := do
  let patterns ← ((lines.map Text.trim).filter (!·.isEmpty)).mapM Pattern.read
  return patterns.filterMap id

/-- Reads patterns from values, of which only the texts are patterns. -/
def ofValues (values : List Json) : Except PatternError ExcludeSpec :=
  ofLines (values.filterMap fun
    | .str s => some s
    | _ => none)

/-- The path without a slash, or a dot and a slash, at its front. -/
def stripped : Text → Text
  | '/' :: rest => rest
  | '.' :: '/' :: rest => rest
  | path => path

/-- The last pattern that matches a file excludes it. -/
def excludesFile (spec : ExcludeSpec) (file : Text) : Bool :=
  match spec.reverse.find? (·.glob.isMatch (stripped file)) with
  | some p => p.excludes
  | none => false

end ExcludeSpec

/-- Why it cannot be said whether a file is excluded. -/
inductive ExcludeError where
  | pattern (e : PatternError)
  /-- One of two paths is absolute and the other is not. -/
  | mixedPaths
  deriving Repr, DecidableEq

/-- The wording of an error. -/
def ExcludeError.message : ExcludeError → Text
  | pattern e => e.message
  | mixedPaths => "Can't mix absolute and relative paths".toList

/-- The path by which a file is matched: relative to the root if it lies below
it, otherwise absolute. -/
def probePath (cwd : Text) (root : Option Text) (path : Text) : Except ExcludeError Text :=
  let full := Path.absolute cwd path
  match root with
  | none | some [] => .ok full
  | some root =>
    let base := Path.absolute cwd root
    -- cannot happen in an absolute working directory
    if Path.isAbsolute base != Path.isAbsolute full then .error .mixedPaths
    else if Path.commonPath base full = base then .ok (Path.relative cwd base full)
    else .ok full

/-- Whether a file is excluded. Without patterns, and without a path, nothing
is. -/
def isExcluded (cwd : Text) (patterns : List Json) (root : Option Text) (path : Text) :
    Except ExcludeError Bool :=
  if patterns.isEmpty || path.isEmpty then .ok false
  else do
    let probe ← probePath cwd root path
    let spec ← (ExcludeSpec.ofValues patterns).mapError .pattern
    return spec.excludesFile probe

end TemplateTidy
