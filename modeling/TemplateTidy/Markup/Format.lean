import TemplateTidy.Markup.Layout

/-!
# Formatting markup

The formatter as a whole: markup in, markup with other white space out. Only an
indentation too long to be held makes it fail.
-/

namespace TemplateTidy

/-- Why markup cannot be laid out. -/
inductive IndentFault where
  /-- The indent width is no machine word. -/
  | widthOutOfRange
  /-- The indentation has more characters than a machine word counts. -/
  | tooLong
  deriving Repr, DecidableEq

/-- The wording of a fault. -/
def IndentFault.message : IndentFault → Text
  | widthOutOfRange => "cannot fit 'int' into an index-sized integer".toList
  | tooLong => "repeated string is too long".toList

namespace MarkupOptions

/-- One more than the largest machine word with a sign. -/
def wordLimit : Int :=
  0x8000000000000000

/-- What is wrong with the indentation, if anything is. -/
def indentFault? (o : MarkupOptions) : Option IndentFault :=
  if wordLimit ≤ o.indentSize ∨ o.indentSize < -wordLimit then some .widthOutOfRange
  else if wordLimit ≤ o.indentSize * o.indentChar.length then some .tooLong
  else none

end MarkupOptions

/-- The lines of laid-out markup. -/
def layoutLines (o : MarkupOptions) (s : Text) : List Text :=
  (Layout.run o (Item.scan o s)).printer.finish

/-- Lays out markup. Blank markup becomes nothing at all. -/
def formatMarkup (o : MarkupOptions) (s : Text) : Except IndentFault Text :=
  if Text.allBlank s then .ok []
  else
    -- whatever is printed first stands behind the indentation, which is therefore always built
    match o.indentFault? with
    | some fault => .error fault
    | none => .ok (Text.join ['\n'] (layoutLines o s) ++ if o.endWithNewline then ['\n'] else [])

end TemplateTidy
