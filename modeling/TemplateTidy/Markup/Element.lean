import TemplateTidy.Text.Basic

/-!
# Kinds of elements

The elements that the layout treats in a way of their own. All names are in
small letters.
-/

namespace TemplateTidy.Element

/-- Elements that flow with the text around them. -/
def inlineNames : List Text :=
  ["a", "abbr", "acronym", "area", "audio", "b", "bdi", "bdo", "big", "br", "button", "canvas",
   "cite", "code", "data", "datalist", "del", "dfn", "em", "embed", "i", "iframe", "img", "input",
   "ins", "kbd", "keygen", "label", "map", "mark", "math", "meter", "noscript", "object", "output",
   "progress", "q", "ruby", "s", "samp", "select", "small", "span", "strike", "strong", "sub",
   "sup", "svg", "template", "text", "textarea", "time", "tt", "u", "var", "video",
   "wbr"].map String.toList

/-- Elements without content. -/
def voidNames : List Text :=
  ["area", "base", "br", "col", "embed", "hr", "img", "input", "keygen", "link", "menuitem",
   "meta", "param", "source", "track", "wbr", "basefont", "isindex"].map String.toList

/-- Elements whose content is not markup. -/
def rawNames : List Text :=
  ["script", "style"].map String.toList

/-- Elements that end where the next one of the same name begins. -/
def selfTerminatingNames : List Text :=
  ["li", "p", "option", "tr", "td", "th", "dt", "dd"].map String.toList

/-- The element flows with the text around it. -/
def isInline (name : Text) : Bool :=
  inlineNames.contains name

/-- The element has no content. -/
def isVoid (name : Text) : Bool :=
  voidNames.contains name

/-- The element's content is not markup. -/
def isRaw (name : Text) : Bool :=
  rawNames.contains name

/-- The element ends where the next one of the same name begins. -/
def isSelfTerminating (name : Text) : Bool :=
  selfTerminatingNames.contains name

end TemplateTidy.Element
