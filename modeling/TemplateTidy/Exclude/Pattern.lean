import TemplateTidy.Exclude.Glob
import TemplateTidy.Text.Blank

/-!
# Exclusion patterns

Patterns say which files are excluded. A pattern with a slash at its front or
inside it is tied to the root, any other one applies at every depth; a slash at
its end asks for a directory; `**` stands for any directories; and a pattern
after `!` takes files back that an earlier one has excluded.
-/

namespace TemplateTidy

/-- Why a pattern cannot be used. -/
inductive PatternError where
  /-- The pattern names nothing, or ends in a lone backslash. -/
  | invalid (pattern : Text)
  | range (fault : Glob.RangeFault)
  deriving Repr, DecidableEq

/-- The wording of an error. -/
def PatternError.message : PatternError → Text
  | invalid pattern => "Invalid git pattern: ".toList ++ Text.quoted pattern
  | range fault => fault.message

/-- A pattern that applies: whether it excludes, and what. -/
structure Pattern where
  excludes : Bool
  glob : Glob
  deriving Repr, DecidableEq

namespace Pattern

/-- Why a component of a pattern has no meaning. -/
inductive ComponentFault where
  | loneBackslash
  | openBracket
  deriving Repr, DecidableEq

/-- A set of characters after its opening bracket: whether it is negated, what
stands in it, and what follows it. A closing bracket right at its front belongs
to the set. -/
def bracket? (s : Text) : Option (Bool × Text × Text) :=
  let negated := s.head? == some '!' || s.head? == some '^'
  let inner := if negated then s.drop 1 else s
  let first := if inner.head? == some ']' then 1 else 0
  (Text.find? [']'] (inner.drop first)).map fun n =>
    (negated, inner.take (first + n), inner.drop (first + n + 1))

/-- What follows a set is no longer than what it is read from. -/
theorem length_bracket? {s : Text} {negated : Bool} {body rest : Text}
    (h : bracket? s = some (negated, body, rest)) : rest.length ≤ s.length := by
  unfold bracket? at h
  simp only [Option.map_eq_some_iff, Prod.mk.injEq] at h
  obtain ⟨n, -, -, -, rfl⟩ := h
  simp only [List.length_drop]
  split
  · simp only [List.length_drop]
    omega
  · omega

/-- The pieces of one component of a pattern. -/
def componentPieces (s : Text) : Except ComponentFault (List GlobPiece) :=
  match s with
  | [] => .ok []
  | ['\\'] => .error .loneBackslash
  | '\\' :: c :: rest => (componentPieces rest).map (.char c :: ·)
  | '*' :: rest => (componentPieces rest).map (.star :: ·)
  | '?' :: rest => (componentPieces rest).map (.one :: ·)
  | '[' :: rest =>
    match _h : bracket? rest with
    | none => .error .openBracket
    | some (negated, body, after) => (componentPieces after).map (.set negated body :: ·)
  | c :: rest => (componentPieces rest).map (.char c :: ·)
termination_by s.length
decreasing_by
  all_goals simp only [List.length_cons]
  all_goals first
    | omega
    | exact Nat.lt_of_le_of_lt (length_bracket? _h) (Nat.lt_succ_self _)

/-- The component that stands for any directories. -/
def anyDirectories : Text :=
  "**".toList

/-- Drops a `**` right after another one. -/
def dropRepeated : List Text → List Text
  | a :: b :: rest =>
    if a = anyDirectories ∧ b = anyDirectories then dropRepeated (b :: rest)
    else a :: dropRepeated (b :: rest)
  | segments => segments

/-- The components of a pattern with its implicit parts written out, or nothing
if it has none. -/
def segments? (written : List Text) : Option (List Text) :=
  let tied :=
    match written with
    | [] :: rest => rest
    -- a single component, with or without a slash at its end, applies at every depth
    | [s] | [s, []] => if s = anyDirectories then written else anyDirectories :: written
    | _ => written
  if tied.isEmpty then none
  else
    some (dropRepeated
      (if tied.getLast? = some [] then tied.dropLast ++ [anyDirectories] else tied))

/-- The pieces of several components. `needsSlash` says whether a slash is owed
before the next one. -/
def segmentPieces (directory first needsSlash : Bool) :
    List Text → Except ComponentFault (List GlobPiece)
  | [] => .ok []
  | s :: rest =>
    if s = anyDirectories then
      if first then
        -- these directories end in a slash of their own, so none is owed
        (segmentPieces directory false needsSlash rest).map (.leadingDirectories :: ·)
      else if rest.isEmpty then .ok [if directory then .directory else .slash]
      else (segmentPieces directory false true rest).map (.innerDirectories :: ·)
    else do
      let own ← if s = ['*'] then .ok [.component] else componentPieces s
      let later ← segmentPieces directory false true rest
      return (if first then [.start] else []) ++ (if needsSlash then [.slash] else []) ++ own ++
        (if rest.isEmpty then [.boundary] else []) ++ later

/-- The glob of a pattern's components. -/
def globOf (directory : Bool) (segments : List Text) : Except ComponentFault Glob :=
  if segments = [anyDirectories] then .ok (if directory then .anySlash else .anything)
  else if segments = [anyDirectories, ['*']] then .ok .anything
  else if segments = [anyDirectories, ['*'], anyDirectories] then .ok .anySlash
  else (segmentPieces directory true false segments).map .pieces

/-- Reads a pattern. Comments, a lone slash and a set that is not closed are no
patterns at all. -/
def read (line : Text) : Except PatternError (Option Pattern) :=
  if line.isEmpty || ['#'].isPrefixOf line || line == ['/'] then .ok none
  else
    let excludes := !(['!'].isPrefixOf line)
    let written := Text.fields '/' (if excludes then line else line.drop 1)
    let directory := written.getLast? == some []
    match segments? written with
    | none => .error (.invalid line)
    | some segments =>
      match globOf directory segments with
      | .error .openBracket => .ok none
      | .error .loneBackslash => .error (.invalid line)
      | .ok glob =>
        match glob.fault? with
        | some fault => .error (.range fault)
        | none => .ok (some { excludes, glob })

end Pattern

end TemplateTidy
