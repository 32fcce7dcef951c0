import TemplateTidy.Options.Lookup

/-!
# Layout options

How markup is to be laid out, and how an editor's record of settings is turned
into such options.
-/

namespace TemplateTidy

/-- How markup is laid out. -/
structure MarkupOptions where
  /-- What one step of indentation repeats, and how often. -/
  indentChar : Text := [' ']
  indentSize : Int := 4
  endWithNewline : Bool := false
  /-- The longest line; zero turns wrapping off. -/
  wrapLineLength : Int := 120
  /-- The name of the way attributes are wrapped. -/
  wrapAttributes : Text := "auto".toList
  preserveNewlines : Bool := false
  /-- How many line feeds in a row are kept; all of them if absent. -/
  maxPreserveNewlines : Option Int := none
  /-- Whether the content of the `html` element is indented. -/
  indentInnerHtml : Bool := false
  /-- Whether handlebars blocks are indented like elements. -/
  indentHandlebars : Bool := false
  /-- Elements that are copied as they stand. -/
  unformatted : List Text :=
    ["area", "base", "br", "col", "embed", "hr", "img", "input", "keygen", "link", "menuitem",
     "meta", "param", "source", "track", "wbr", "!doctype", "?xml", "?php", "?=", "basefont",
     "isindex"].map String.toList
  /-- Elements whose content is copied as it stands. -/
  contentUnformatted : List Text := ["pre", "textarea"].map String.toList
  /-- Tags that have an empty line before them. -/
  extraLiners : List Text := ["head", "body", "/html"].map String.toList
  /-- Names of the templating languages whose tags are left alone. -/
  templating : List Text := ["php".toList]
  deriving Repr, DecidableEq

namespace MarkupOptions

/-- The ways of wrapping attributes that an editor may ask for. -/
def wrapModes : List Text :=
  ["auto", "force", "force-aligned", "force-expand-multiline", "aligned-multiple", "preserve",
   "preserve-aligned"].map String.toList

/-- The indent character that a record asks for, or else the one that fits its
choice between spaces and tabs. -/
def indentCharOf (r : Record) : Text :=
  match r.text? "indentChar".toList with
  | some [' '] => [' ']
  | some ['\t'] => ['\t']
  | _ => if r.flag "insertSpaces".toList true then [' '] else ['\t']

/-- The indent width that a record asks for: as many spaces as a tab is wide,
or one tab, unless a width is given. -/
def indentSizeOf (r : Record) : Int :=
  let tabSize := (r.number? "tabSize".toList).getD 4
  -- a tab of negative width counts as zero, a negative indent width as not given
  let usual := if indentCharOf r = [' '] then max tabSize 0 else 1
  match r.number? "indentWidth".toList with
  | some n => if n < 0 then usual else n
  | none => usual

/-- The layout options that an editor's record asks for. -/
def ofRecord (r : Record) : MarkupOptions :=
  let defaults : MarkupOptions := {}
  { indentChar := indentCharOf r
    indentSize := indentSizeOf r
    endWithNewline := r.flag "endWithNewline".toList false
    wrapLineLength := max ((r.number? "wrapLineLength".toList).getD 120) 0
    wrapAttributes :=
      match r.text? "wrapAttributes".toList with
      | some mode => if wrapModes.contains mode then mode else "auto".toList
      | none => "auto".toList
    preserveNewlines := r.flag "preserveNewlines".toList false
    maxPreserveNewlines := (r.number? "maxPreserveNewlines".toList).filter (0 ≤ ·)
    indentInnerHtml := r.flag "indentInnerHtml".toList false
    indentHandlebars := r.flag "indentHandlebars".toList false
    unformatted := r.tags "unformatted".toList defaults.unformatted
    contentUnformatted := r.tags "contentUnformatted".toList defaults.contentUnformatted
    extraLiners := r.tags "extraLiners".toList defaults.extraLiners
    templating := ["php".toList] }

/-- The options leave templating tags alone. -/
def templates (o : MarkupOptions) : Bool :=
  o.templating.contains "php".toList

end MarkupOptions

end TemplateTidy
