import TemplateTidy.Markup.Options

/-!
# The printer

Lays out words and tags on lines. White space of the source is only noted;
what becomes of it is decided when the next thing is placed: nothing, one
space, or a line break with the empty lines that are to be kept.
-/

namespace TemplateTidy

namespace MarkupOptions

/-- One step of indentation. -/
def indentUnit (o : MarkupOptions) : Text :=
  Text.times o.indentSize.toNat o.indentChar

/-- The indentation at a depth. -/
def indent (o : MarkupOptions) (depth : Int) : Text :=
  Text.times depth.toNat o.indentUnit

/-- How many empty lines are kept for so many line feeds in a row. -/
def keptLines (o : MarkupOptions) (newlines : Nat) : Nat :=
  if o.preserveNewlines && newlines != 0 then
    match o.maxPreserveNewlines with
    | none => newlines - 1
    | some limit => (min (newlines : Int) limit - 1).toNat
  else 0

end MarkupOptions

/-- The lines printed so far and the state of the present one. -/
structure Printer where
  /-- Finished lines, the last one first. -/
  lines : List Text := []
  /-- The line that is being printed, the last character first. -/
  line : Text := []
  depth : Int := 0
  /-- Line feeds of the source since the last thing was placed. -/
  newlines : Nat := 0
  /-- There was white space since the last thing was placed. -/
  space : Bool := false
  /-- Whatever comes next starts a new line. -/
  breakNext : Bool := false
  deriving Repr, DecidableEq

namespace Printer

/-- The present line holds more than white space. -/
def hasContent (p : Printer) : Bool :=
  !Text.allBlank p.line

/-- The column after the last character. -/
def column (p : Printer) : Nat :=
  (Text.firstLine p.line).length

/-- Finishes the present line and makes sure that at least `blank` empty lines
follow it, unless nothing has been printed. -/
def newline (p : Printer) (blank : Nat) : Printer :=
  -- lines are stored backwards, so that the white space at their end comes first
  let lines := if p.hasContent then (Text.trimLeft p.line).reverse :: p.lines else p.lines
  let existing := (lines.takeWhile List.isEmpty).length
  { p with
    line := []
    lines := if lines.isEmpty then [] else List.replicate (blank - existing) [] ++ lines }

/-- Notes white space of the source. -/
def noteGap (p : Printer) (gap : Text) : Printer :=
  { p with newlines := p.newlines + Text.newlines gap, space := true }

/-- Forgets the white space noted so far. -/
def settled (p : Printer) : Printer :=
  { p with newlines := 0, space := false, breakNext := false }

/-- Decides what becomes of the white space before the next thing, and says
whether one space goes before it. A block always starts a line; an atom does so
wherever the source has a line break before it. -/
def place (o : MarkupOptions) (p : Printer) (block atom : Bool) : Printer × Bool :=
  let q := p.settled
  -- a blank line is begun already; only empty lines may have to go before it
  if !p.hasContent then
    (if p.newlines != 0 && !p.lines.isEmpty then q.newline (o.keptLines p.newlines) else q, false)
  else if block || p.breakNext || (p.newlines != 0 && (o.preserveNewlines || atom)) then
    (q.newline (o.keptLines p.newlines), false)
  else (q, p.space)

/-- Places a block. -/
def placeBlock (o : MarkupOptions) (p : Printer) : Printer :=
  (p.place o true false).1

/-- Puts a space at the end of the line, if one is wanted. -/
def spaced (p : Printer) (space : Bool) : Printer :=
  if space then { p with line := ' ' :: p.line } else p

/-- Puts text on the line, behind the indentation if the line is blank. -/
def write (o : MarkupOptions) (p : Printer) (s : Text) : Printer :=
  { p with line := s.reverse ++ (if p.hasContent then p.line else (o.indent p.depth).reverse) }

/-- Puts text at the end of the line as it is. -/
def glue (p : Printer) (s : Text) : Printer :=
  { p with line := s.reverse ++ p.line }

/-- The column at which the next thing would start. -/
def startColumn (o : MarkupOptions) (p : Printer) (space : Bool) : Nat :=
  if p.hasContent then p.column + space.toNat else (o.indent p.depth).length

/-- The first line of a text still fits on the present line. -/
def fits (o : MarkupOptions) (p : Printer) (space : Bool) (s : Text) : Bool :=
  o.wrapLineLength == 0 || !p.hasContent
    || decide ((p.column + space.toNat + (Text.firstLine s).length : Int) ≤ o.wrapLineLength)

/-- Prints something that flows with the text. -/
def inline (o : MarkupOptions) (p : Printer) (s : Text) (atom wrappable : Bool) : Printer :=
  let (p, space) := p.place o false atom
  -- where it does not fit it goes to the next line, whether the source has white space or not
  if wrappable && !p.fits o space s then (p.newline 0).write o s
  else (p.spaced space).write o s

/-- Prints something on a line of its own. -/
def block (o : MarkupOptions) (p : Printer) (s : Text) : Printer :=
  { (p.placeBlock o).write o s with breakNext := true }

/-- The lines printed in all, first line first, without empty ones at the
end. -/
def finish (p : Printer) : List Text :=
  ((p.newline 0).lines.dropWhile List.isEmpty).reverse

end Printer

end TemplateTidy
