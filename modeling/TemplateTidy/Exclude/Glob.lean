import TemplateTidy.Text.Quoted

/-!
# Globs

A glob is a sequence of pieces, each of which matches some characters of a
path. A star or a question mark never matches a slash; a set of characters may.
Every piece has a written form as a regular expression, and the place of an
error in a glob is its place in that form.
-/

namespace TemplateTidy

/-- A member of a set of characters. -/
inductive SetMember where
  | single (c : Char)
  | range (first last : Char)
  deriving Repr, DecidableEq

/-- The member covers a character. -/
def SetMember.covers : SetMember → Char → Bool
  | single a, c => a == c
  | range a b, c => decide (a ≤ c) && decide (c ≤ b)

/-- A piece of a glob. -/
inductive GlobPiece where
  | char (c : Char)
  /-- Any character but a slash. -/
  | one
  /-- Any number of characters but slashes. -/
  | star
  /-- A whole component. -/
  | component
  /-- A set of characters by what is written between its brackets. -/
  | set (negated : Bool) (body : Text)
  /-- The start of the path. -/
  | start
  /-- The start of the path, or any directories below it. -/
  | leadingDirectories
  /-- Nothing, or any directories in between. -/
  | innerDirectories
  | slash
  /-- A slash after a directory. -/
  | directory
  /-- A slash, or the end of the path. -/
  | boundary
  deriving Repr, DecidableEq

namespace GlobPiece

/-- A character as it is written inside a set. -/
def setChar (c : Char) : Text :=
  if c == '\\' then ['\\', '\\'] else [c]

/-- A character as it is written outside of sets. -/
def plainChar (c : Char) : Text :=
  if "()[]\x7b\x7d?*+-|^$\\.&~# \t\n\r\x0b\x0c".toList.contains c then ['\\', c] else [c]

/-- The written form of a piece. -/
def written : GlobPiece → Text
  | char c => plainChar c
  | one => "[^/]".toList
  | star => "[^/]*".toList
  | component => "[^/]+".toList
  | set negated body =>
    '[' :: (if negated then ['^'] else []) ++ body.flatMap setChar ++ [']']
  | start => "^".toList
  | leadingDirectories => "^(?:.+/)?".toList
  | innerDirectories => "(?:/.+)?".toList
  | slash => "/".toList
  | directory => "(?P<ps_d>/)".toList
  | boundary => "(?:(?P<ps_d>/)|$)".toList

/-! ## Sets -/

/-- A range whose ends are in the wrong order, with the number of characters
written before it in the set. -/
structure BadRange where
  first : Char
  last : Char
  offset : Nat
  deriving Repr, DecidableEq

/-- The members of a set. A dash stands for itself at the end and as the end of
a range. -/
def members (offset : Nat) : Text → Except BadRange (List SetMember)
  | [] => .ok []
  | [a, '-'] => .ok [.single a, .single '-']
  | a :: '-' :: b :: rest =>
    -- ends in the wrong order make the whole set unreadable
    if b < a then .error ⟨a, b, offset⟩
    else
      (members (offset + (setChar a).length + 1 + (setChar b).length) rest).map (.range a b :: ·)
  | a :: rest => (members (offset + (setChar a).length) rest).map (.single a :: ·)

/-- The set covers a character. -/
def setCovers (negated : Bool) (body : Text) (c : Char) : Bool :=
  match members 0 body with
  | .ok ms => ms.any (·.covers c) != negated
  | .error _ => false

/-! ## Matching

The pieces are matched from the last one to the first. What they accept is
noted for every end part of the path at once, so that the effort grows with the
number of pieces and not with the number of ways to place them.
-/

/-- For every end part of a text, the whole text first and the empty one last,
whether it is accepted. -/
abbrev Verdicts := List Bool

/-- Accepts a character of a class before what is accepted. -/
def oneThen (p : Char → Bool) : Text → Verdicts → Verdicts
  | c :: cs, _ :: rest => (p c && rest.headD false) :: oneThen p cs rest
  | _, _ => [false]

/-- Accepts any number of characters of a class before what is accepted. -/
def manyThen (p : Char → Bool) : Text → Verdicts → Verdicts
  | c :: cs, v :: rest =>
    let later := manyThen p cs rest
    (v || (p c && later.headD false)) :: later
  | _, verdicts => verdicts

/-- Accepts at least one character of a class before what is accepted. -/
def someThen (p : Char → Bool) (s : Text) (verdicts : Verdicts) : Verdicts :=
  oneThen p s (manyThen p s verdicts)

/-- Accepts what is accepted at the end, or before a last line feed. -/
def endThen : Text → Verdicts → Verdicts
  | c :: cs, v :: rest => (v && decide (c :: cs = ['\n'])) :: endThen cs rest
  | _, verdicts => verdicts

/-- Accepts what one of two accepts. -/
def either (a b : Verdicts) : Verdicts :=
  List.zipWith (· || ·) a b

/-- Accepts the piece before what is accepted. -/
def accept (s : Text) (piece : GlobPiece) (verdicts : Verdicts) : Verdicts :=
  match piece with
  | char c => oneThen (· == c) s verdicts
  | one => oneThen (· != '/') s verdicts
  | star => manyThen (· != '/') s verdicts
  | component => someThen (· != '/') s verdicts
  | set negated body => oneThen (setCovers negated body) s verdicts
  -- only the verdict on the whole path is asked for in the end
  | start => verdicts
  | leadingDirectories => either verdicts (someThen (· != '\n') s (oneThen (· == '/') s verdicts))
  | innerDirectories => either verdicts (oneThen (· == '/') s (someThen (· != '\n') s verdicts))
  | slash | directory => oneThen (· == '/') s verdicts
  | boundary => either (oneThen (· == '/') s verdicts) (endThen s verdicts)

/-- The pieces match one after the other at the front of a text. -/
def allMatch (ps : List GlobPiece) (s : Text) : Bool :=
  (ps.foldr (accept s) (List.replicate (s.length + 1) true)).headD false

end GlobPiece

/-- What is looked for in a path. -/
inductive Glob where
  /-- Anything but line feeds. -/
  | anything
  /-- A slash anywhere. -/
  | anySlash
  /-- The pieces from the front of the path on. -/
  | pieces (ps : List GlobPiece)
  deriving Repr, DecidableEq

namespace Glob

/-- The glob matches a path. -/
def isMatch (g : Glob) (path : Text) : Bool :=
  match g with
  | anything => path.any (· != '\n')
  | anySlash => path.contains '/'
  | pieces ps => GlobPiece.allMatch ps path

/-- Why a glob cannot be used. -/
structure RangeFault where
  first : Text
  last : Text
  position : Nat
  /-- Line and column, if the written form has several lines. -/
  place : Option (Nat × Nat)
  deriving Repr, DecidableEq

/-- The wording of a fault. -/
def RangeFault.message (f : RangeFault) : Text :=
  "bad character range ".toList ++ f.first ++ '-' :: f.last ++ " at position ".toList ++
    Text.ofNat f.position ++
    match f.place with
    | none => []
    | some (line, column) =>
      " (line ".toList ++ Text.ofNat line ++ ", column ".toList ++ Text.ofNat column ++ ")".toList

/-- The first bad range of a set among the pieces, with its position in the
written form. -/
def badRange? (position : Nat) : List GlobPiece → Option (Nat × GlobPiece.BadRange)
  | [] => none
  | .set negated body :: rest =>
    match GlobPiece.members 0 body with
    | .error bad => some (position + (if negated then 2 else 1) + bad.offset, bad)
    | .ok _ => badRange? (position + (GlobPiece.set negated body).written.length) rest
  | p :: rest => badRange? (position + p.written.length) rest

/-- What is wrong with a glob, if anything is. -/
def fault? (g : Glob) : Option RangeFault :=
  match g with
  | pieces ps =>
    (badRange? 0 ps).map fun (position, bad) =>
      let whole := ps.flatMap GlobPiece.written
      let before := whole.take position
      { first := GlobPiece.setChar bad.first
        last := GlobPiece.setChar bad.last
        position
        place :=
          if whole.contains '\n' then
            some (Text.newlines before + 1, (Text.lastLine before).length + 1)
          else none }
  | _ => none

end Glob

end TemplateTidy
