import TemplateTidy.Text.Blank

/-!
# Sentinels

A code segment is hidden from the layout of the markup around it by turning it
into a comment:

* in markup   `<!-- %pcs-comment-start#<?php ... ?>%pcs-comment-end#-->`
* in scripts  `/*%pcs-comment-start#<?php ... ?>%pcs-comment-end#*/`

Inside the comment quotes are escaped, so that a segment in an attribute value
cannot end the attribute, and the terminator of the comment is escaped, so that
the code cannot end the comment. In scripts the opener of an end tag is escaped
as well, so that the code cannot end the element around it.

Every sentinel carries the codec's nonce next to a percent sign. As long as no
such fragment occurs in a text, decoding leaves the text alone.
-/

namespace TemplateTidy

/-- The style of comment that hides a segment: that of markup, or that of the
scripts and style sheets inside it. -/
inductive Style where
  | markup
  | code
  deriving Repr, DecidableEq

/-- A set of sentinels, distinguished from all others by a nonce. -/
structure Codec where
  nonce : Text
  valid : nonce ≠ [] ∧ nonce.all Char.isAlphanum = true

namespace Codec

/-- The codec of a nonce, which must be non-empty and alphanumeric. -/
def ofNonce? (nonce : Text) : Option Codec :=
  if h : nonce ≠ [] ∧ nonce.all Char.isAlphanum = true then some ⟨nonce, h⟩ else none

/-- The codec for texts that hold no fragment of its sentinels. -/
def usual : Codec :=
  ⟨"pcs".toList, by decide⟩

/-! ## The sentinels -/

/-- Stands for a double quote. -/
def doubleQuote (k : Codec) : Text :=
  k.nonce ++ "%quote#1".toList

/-- Stands for a single quote. -/
def singleQuote (k : Codec) : Text :=
  k.nonce ++ "%quote~2".toList

/-- What the middle of both terminators and the end of both comments hold. -/
def endMark (k : Codec) : Text :=
  '%' :: k.nonce ++ "-comment-end#".toList

/-- What the start of both comments holds. -/
def startMark (k : Codec) : Text :=
  '%' :: k.nonce ++ "-comment-start#".toList

/-- Stands for the terminator of a comment in markup. -/
def markupTerminator (k : Codec) : Text :=
  '-' :: k.endMark ++ "->".toList

/-- Stands for the terminator of a comment in code. -/
def codeTerminator (k : Codec) : Text :=
  '*' :: k.endMark ++ "/".toList

/-- Stands for the opener of an end tag. -/
def endTagOpen (k : Codec) : Text :=
  "<%".toList ++ k.nonce ++ "-end-tag#/".toList

/-- Opens a hidden segment. -/
def wrapStart (k : Codec) : Style → Text
  | .markup => "<!-- ".toList ++ k.startMark
  | .code => "/*".toList ++ k.startMark

/-- Closes a hidden segment. -/
def wrapEnd (k : Codec) : Style → Text
  | .markup => k.endMark ++ "-->".toList
  | .code => k.endMark ++ "*/".toList

/-- All sentinels: the five escapes, then start and end of both comments. -/
def sentinels (k : Codec) : List Text :=
  [k.doubleQuote, k.singleQuote, k.markupTerminator, k.codeTerminator, k.endTagOpen,
   k.wrapStart .markup, k.wrapEnd .markup, k.wrapStart .code, k.wrapEnd .code]

/-! ## Hiding -/

/-- Escapes what must not occur inside a comment of the given style. -/
def encode (k : Codec) (style : Style) (s : Text) : Text :=
  -- no escape holds what a later step looks for
  let s := Text.replaceAll ['"'] k.doubleQuote s
  let s := Text.replaceAll ['\''] k.singleQuote s
  match style with
  | .markup => Text.replaceAll "-->".toList k.markupTerminator s
  | .code =>
    let s := Text.replaceAll "*/".toList k.codeTerminator s
    Text.replaceAll "</".toList k.endTagOpen s

/-! ## Revealing -/

/-- Recognises the start of a comment in markup, with any white space before
the mark. -/
def markupStart (k : Codec) : Recogniser := fun s =>
  if "<!--".toList.isPrefixOf s then
    -- a formatter may have changed the one space that was put here
    let gap := Text.blanks (s.drop 4)
    if k.startMark.isPrefixOf (s.drop (4 + gap)) then some (4 + gap + k.startMark.length) else none
  else none

/-- What is replaced by what in decoding, in this order: the wrappers go first,
then the terminators, then the quotes. -/
def decodeSteps (k : Codec) : List (Recogniser × Text) :=
  [(Text.literal (k.wrapEnd .markup), []),
   (k.markupStart, []),
   (Text.literal (k.wrapEnd .code), []),
   (Text.literal (k.wrapStart .code), []),
   (Text.literal k.markupTerminator, "-->".toList),
   (Text.literal k.codeTerminator, "*/".toList),
   (Text.literal k.endTagOpen, "</".toList),
   (Text.literal k.singleQuote, ['\'']),
   (Text.literal k.doubleQuote, ['"'])]

/-- Takes the wrappers off and undoes the escapes. -/
def decode (k : Codec) (s : Text) : Text :=
  k.decodeSteps.foldl (fun s (r, new) => Text.substitute r new s) s

end Codec

end TemplateTidy
