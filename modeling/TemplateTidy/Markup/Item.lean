import TemplateTidy.Html.EndTag
import TemplateTidy.Markup.Element
import TemplateTidy.Markup.Options
import TemplateTidy.Markup.Tag

/-!
# Items of markup

Markup is cut into items, none of which the layout will cut again except for
texts, which it divides at white space, and start tags, whose attributes it may
rearrange. Put back together the items are the markup again.

Whatever is left unfinished reaches to the end of the text. A `<` that begins
nothing belongs to the text around it.
-/

namespace TemplateTidy

/-- A start tag. -/
structure StartTag where
  raw : Text
  /-- The element's name in small letters. -/
  name : Text
  /-- The element has no content and no end tag. -/
  void : Bool
  /-- The tag is to be copied as it stands. -/
  verbatim : Bool
  deriving Repr, DecidableEq

/-- An item of markup. -/
inductive Item where
  | text (raw : Text)
  | startTag (tag : StartTag)
  | endTag (raw name : Text)
  | comment (raw : Text)
  /-- A templating tag. -/
  | template (raw : Text)
  | declaration (raw : Text)
  /-- The content of an element that is not read as markup. -/
  | body (raw name : Text)
  /-- A whole element that is copied as it stands. -/
  | verbatim (raw name : Text)
  deriving Repr, DecidableEq

namespace Item

/-- The characters of an item. -/
def raw : Item → Text
  | text r | comment r | template r | declaration r => r
  | startTag tag => tag.raw
  | endTag r _ | body r _ | verbatim r _ => r

/-! ## Elements copied whole -/

/-- A start or end tag of the given element at the front of a text: whether it
closes the element, whether it has no content, and its length. -/
def tagOf? (name : Text) (s : Text) : Option (Bool × Bool × Nat) :=
  match s with
  | '<' :: rest =>
    let closes := rest.head? == some '/'
    let lead := if closes then 2 else 1
    let head := lead + Text.blanks (s.drop lead)
    if Text.beginsIgnoringCase name (s.drop head) then
      let after := s.drop (head + name.length)
      match after with
      | c :: _ =>
        if isBlank c || c == '/' || c == '>' then
          (Text.through? ['>'] after).map fun n =>
            let length := head + name.length + n
            (closes, Text.endsWith "/>".toList (s.take length), length)
        else none
      | [] => none
    else none
  | _ => none

/-- Number of characters up to the end of an element, given how many elements
of its name are open. -/
def elementRest (name : Text) (depth : Nat) (s : Text) : Nat :=
  match s with
  | [] => 0
  | c :: cs =>
    match tagOf? name (c :: cs) with
    -- `n` is not zero, and `n - 1` characters behind the first one are passed
    | some (true, _, n) =>
      if depth ≤ 1 then n
      else 1 + (n - 1) + elementRest name (depth - 1) (cs.drop (n - 1))
    | some (false, selfClosing, n) =>
      1 + (n - 1) + elementRest name (if selfClosing then depth else depth + 1) (cs.drop (n - 1))
    | none => 1 + elementRest name depth cs
termination_by s.length
decreasing_by
  all_goals simp only [List.length_drop, List.length_cons]
  all_goals omega

/-! ## Scanning -/

/-- Number of characters from a head of the given length to the end of a
terminator after it, or all of them if there is none. -/
def extent (head : Nat) (terminator : Text) (s : Text) : Nat :=
  match Text.through? terminator (s.drop head) with
  | some n => head + n
  | none => s.length

/-- Length of the tag at the front of a text. -/
def tagLength (o : MarkupOptions) (s : Text) : Nat :=
  1 + Tag.length o.templates .plain (s.drop 1)

/-- The start tag has a slash before its closing brackets. -/
def closesItself (raw : Text) : Bool :=
  let open' := (raw.reverse.dropWhile (· == '>')).reverse
  Text.endsWith ['/'] (Text.trimRight open')

/-- The element is copied whole. -/
def isUnformatted (o : MarkupOptions) (name : Text) : Bool :=
  o.unformatted.any fun t => t == name && !(['!'].isPrefixOf t || ['?'].isPrefixOf t)

/-- The start tag of the given length at the front of a text. -/
def startTagOf (o : MarkupOptions) (s : Text) (n : Nat) : StartTag :=
  let raw := s.take n
  let name := Text.lower (Tag.writtenName s)
  { raw, name, void := Element.isVoid name || closesItself raw,
    verbatim := isUnformatted o name }

/-- Length of the content of a raw element. -/
def bodyLength (name s : Text) : Nat :=
  match Text.search? (Html.endTagOf name) s with
  | some (i, _) => i
  | none => s.length

/-- The items that begin with a start tag: the whole element if it is copied as
it stands, otherwise the tag and any content that is not read as markup. -/
def element (o : MarkupOptions) (s : Text) : List Item :=
  let n := tagLength o s
  let tag := startTagOf o s n
  let after := s.drop n
  -- a tag without content is copied by itself, as a start tag that is kept
  if tag.verbatim && !tag.void then
    [verbatim (s.take (n + elementRest tag.name 1 after)) tag.name]
  else if !tag.void && (Element.isRaw tag.name || o.contentUnformatted.contains tag.name) then
    let content := after.take (bodyLength tag.name after)
    if content.isEmpty then [startTag tag] else [startTag tag, body content tag.name]
  else [startTag tag]

/-- The items at the front of a text, unless it begins with text. -/
def markup? (o : MarkupOptions) (s : Text) : Option (List Item) :=
  if "<!--".toList.isPrefixOf s then some [comment (s.take (extent 4 "-->".toList s))]
  else if o.templates && "<?".toList.isPrefixOf s then
    some [template (s.take (extent 2 "?>".toList s))]
  else
    match s with
    -- quotes and atoms may hold brackets in a declaration as in a tag
    | '<' :: '!' :: _ => some [declaration (s.take (tagLength o s))]
    | '<' :: '/' :: c :: rest =>
      if c.isAlpha then
        some [endTag (s.take (tagLength o s)) (Text.lower (c :: rest.takeWhile Tag.inName))]
      else none
    | '<' :: c :: _ => if c.isAlpha then some (element o s) else none
    | _ => none

/-- The characters of several items. -/
def rawOf (items : List Item) : Text :=
  items.flatMap raw

/-- Puts text in front of items. -/
def consText (t : Text) : List Item → List Item
  | text u :: rest => text (t ++ u) :: rest
  | items => text t :: items

/-- Cuts markup into items. Text is passed over up to the next bracket. -/
def scan (o : MarkupOptions) (s : Text) : List Item :=
  match s with
  | [] => []
  | c :: cs =>
    match markup? o (c :: cs) with
    | some items => items ++ scan o (cs.drop ((rawOf items).length - 1))
    | none =>
      -- a bracket that begins nothing is taken with the text behind it
      let run := cs.takeWhile (· != '<')
      consText (c :: run) (scan o (cs.drop run.length))
termination_by s.length
decreasing_by
  all_goals simp only [List.length_drop, List.length_cons]
  all_goals omega

end Item

end TemplateTidy
