import TemplateTidy.Text.Case
import TemplateTidy.Text.Recogniser

/-!
# End tags

The end tag of a given element, which closes an element whose content is not
read as markup.
-/

namespace TemplateTidy.Html

open Recogniser

/-- The end tag of an element, in any letter case and with white space around
its name. -/
def endTagOf (name : Text) : Recogniser :=
  andThen (Text.literal "</".toList)
    (andThen (gap 0) (andThen (Text.literalIgnoringCase name)
      (andThen (gap 0) (Text.literal ['>']))))

end TemplateTidy.Html
