import TemplateTidy.Text.Alphanumeric
import TemplateTidy.Text.Case
import TemplateTidy.Text.Recogniser

/-!
# Lexical patterns of PHP

Recognisers for names, keywords, numbers, comments and strings. Letter case
never matters. Every character beyond ASCII may stand in a name, white space
included.
-/

namespace TemplateTidy.Php

open Recogniser

/-! ## Names -/

/-- Begins a name. -/
def isNameStart (c : Char) : Bool :=
  c.isAlpha || c == '_' || 0x80 ≤ c.toNat

/-- Continues a name. -/
def isNameRest (c : Char) : Bool :=
  c.isAlphanum || c == '_' || 0x80 ≤ c.toNat

/-- A name without a namespace. -/
def name : Recogniser :=
  run isNameStart isNameRest

/-- A name with or without a namespace. -/
def path : Recogniser :=
  run (fun c => isNameStart c || c == '\\') (fun c => isNameRest c || c == '\\')

/-- A word in any letter case. -/
def word (w : String) : Recogniser :=
  Text.literalIgnoringCase w.toList

/-- A word in any letter case with no word character after it. -/
def wholeWord (w : String) : Recogniser :=
  before (word w) Text.endsWord

/-- Words that are not names, the constants of the compiler among them. -/
def keywords : List String :=
  ["and", "E_PARSE", "old_function", "E_ERROR", "or", "as", "E_WARNING", "parent", "eval",
   "PHP_OS", "break", "exit", "case", "extends", "PHP_VERSION", "cfunction", "FALSE", "print",
   "for", "require", "continue", "foreach", "require_once", "declare", "return", "default",
   "static", "do", "switch", "die", "stdClass", "echo", "else", "TRUE", "elseif", "var", "empty",
   "if", "xor", "enddeclare", "include", "virtual", "endfor", "include_once", "while",
   "endforeach", "global", "endif", "list", "endswitch", "new", "endwhile", "not", "array",
   "E_ALL", "NULL", "final", "php_user_filter", "interface", "implements", "public", "private",
   "protected", "abstract", "clone", "try", "catch", "throw", "this", "use", "namespace", "trait",
   "yield from", "yield", "finally", "match", "readonly", "__LINE__", "__FILE__", "__DIR__",
   "__FUNCTION__", "__CLASS__", "__TRAIT__", "__METHOD__", "__NAMESPACE__", "__PROPERTY__"]

/-- Names of methods with a meaning of their own. -/
def magicMethods : List String :=
  ["__construct", "__destruct", "__call", "__callStatic", "__get", "__set", "__isset", "__unset",
   "__sleep", "__wakeup", "__toString", "__invoke", "__set_state", "__clone", "__debugInfo"]

/-- The first word of a list that stands here whole. -/
def oneOf (words : List String) : Recogniser :=
  firstOf (words.map wholeWord)

/-- The text goes on with an opening parenthesis. -/
def opensArguments : Text → Bool
  | '(' :: _ => true
  | _ => false

/-- The keyword of an anonymous function, with the white space before its
arguments. -/
def functionExpression : Recogniser :=
  before (andThen (word "function") (gap 0)) opensArguments

/-- An ampersand, or nothing. -/
def ampersand? : Recogniser
  | '&' :: _ => some 1
  | _ => some 0

/-- The keyword of a named function, up to its name. -/
def functionHead : Recogniser :=
  andThen (word "function") (andThen (gap 1) (andThen ampersand? (gap 0)))

/-- The keyword of a class, up to its name. -/
def classHead : Recogniser :=
  andThen (word "class") (gap 1)

/-- The keywords of an anonymous class. -/
def newClass : Recogniser :=
  andThen (word "new") (afterGap (wholeWord "class"))

/-- A constant with its name. -/
def constant : Recogniser :=
  andThen (word "const") (afterGap path)

/-- A member or class constant with the arrow or colons before it. -/
def member : Recogniser :=
  andThen (firstOf [Text.literal "->".toList, Text.literal "::".toList]) (afterBlanks name)

/-- A variable, with any number of further dollar signs. -/
def dollarName : Recogniser :=
  andThen (many (· == '$')) path

/-! ## Signs -/

/-- Operators, as long a row of them as possible. -/
def operators : Recogniser :=
  many "~!%^&*+=|:.<>/@-".toList.contains

/-- Brackets, commas and semicolons, as long a row of them as possible. -/
def punctuation : Recogniser :=
  many "[]\x7b\x7d();,".toList.contains

/-! ## Numbers -/

/-- A power of ten. -/
def exponent : Recogniser
  | c :: cs =>
    let sign := match cs with
      | '+' :: _ | '-' :: _ => 1
      | _ => 0
    if c == 'e' || c == 'E' then (many Char.isDigit (cs.drop sign)).map (1 + sign + ·) else none
  | [] => none

/-- A number with a point, after at least one digit. -/
def pointed : Recogniser := fun s =>
  let whole := (s.takeWhile isDecimal).length
  match s.drop whole with
  | '.' :: rest =>
    if whole = 0 then none
    else
      let places := (rest.takeWhile isDecimal).length
      let power := (exponent (rest.drop places)).getD 0
      some (whole + 1 + places + power)
  | _ => none

/-- Numbers in all notations. A binary number falls apart into a zero and a
name. -/
def number : Recogniser :=
  -- the longer notations first, since each begins like a shorter one
  firstOf
    [pointed,
     andThen (many isDecimal) exponent,
     andThen (Text.literal ['0']) (many fun c => '0' ≤ c && c ≤ '7'),
     andThen (word "0x") (many fun c => c.isDigit || ('a' ≤ c.toLower && c.toLower ≤ 'f')),
     many isDecimal]

/-! ## Comments -/

/-- From a mark to the end of the line, which must be there. -/
def lineComment (mark : String) : Recogniser :=
  andThen (Text.literal mark.toList) (through ['\n'])

/-- From a mark to the end of the comment. -/
def blockComment (mark : String) : Recogniser :=
  andThen (Text.literal mark.toList) (through "*/".toList)

/-! ## Strings -/

/-- Up to and including the closing quote. A backslash takes the next character
with it. -/
def closingQuote (q : Char) : Recogniser
  | [] => none
  | ['\\'] => none
  | '\\' :: _ :: rest => (closingQuote q rest).map (2 + ·)
  | c :: rest => if c == q then some 1 else (closingQuote q rest).map (1 + ·)

/-- A string without interpolations between two quotes. -/
def quotedBy (q : Char) : Recogniser :=
  andThen (Text.literal [q]) (closingQuote q)

/-- The text begins with the label of a heredoc, in any letter case. -/
def beginsLabel : Text → Text → Bool
  | [], _ => true
  | _ :: _, [] => false
  | p :: ps, c :: cs => smallLetter p == smallLetter c && beginsLabel ps cs

/-- The label that ends a heredoc, alone on its line but for a semicolon. -/
def labelLine (label : Text) : Recogniser := fun s =>
  if beginsLabel label s then
    match s.drop label.length with
    | '\n' :: _ => some (label.length + 1)
    | ';' :: '\n' :: _ => some (label.length + 2)
    | _ => none
  else none

/-- The rest of a heredoc from its first line on. -/
def heredocBody (label : Text) : Recogniser
  | [] => none
  | c :: cs =>
    match if c == '\n' then afterBlanks (labelLine label) cs else none with
    | some n => some (1 + n)
    -- a line that only begins with the label is text like any other
    | none => (heredocBody label cs).map (1 + ·)

/-- A heredoc or nowdoc. -/
def heredoc : Recogniser := fun s =>
  if "<<<".toList.isPrefixOf s then
    let quote : Text := match s.drop 3 with
      | '\'' :: _ => ['\'']
      | '"' :: _ => ['"']
      | _ => []
    let labelled := s.drop (3 + quote.length)
    match name labelled with
    | none => none
    | some n =>
      -- the label is closed by the quote that opens it, and ends its line
      let head := quote ++ ['\n']
      if head.isPrefixOf (labelled.drop n) then
        (heredocBody (labelled.take n) (labelled.drop (n + head.length))).map
          (3 + quote.length + n + head.length + ·)
      else none
  else none

/-! ## Inside strings -/

/-- Characters of a string without a meaning of their own. -/
def stringChars : Recogniser :=
  many fun c => !"\x7b$\"\\".toList.contains c

/-- Up to `most` characters of a class, at least one. -/
def upTo (most : Nat) (p : Char → Bool) : Recogniser := fun s =>
  match ((s.take most).takeWhile p).length with
  | 0 => none
  | n => some n

/-- The part of an escape after its backslash. -/
def escapeTail : Recogniser :=
  firstOf
    [run (fun c => "nrt\"$\\".toList.contains c.toLower) (fun _ => false),
     upTo 3 fun c => '0' ≤ c && c ≤ '7',
     andThen (word "x") (upTo 2 fun c => c.isDigit || ('a' ≤ c.toLower && c.toLower ≤ 'f'))]

/-- An escape. -/
def escape : Recogniser :=
  andThen (Text.literal ['\\']) escapeTail

/-- An index in brackets: at least one character that is not white space, up to
the first bracket after it. -/
def index : Recogniser
  | '[' :: first :: rest =>
    if isBlank first then none
    else
      let row := rest.takeWhile (!isBlank ·)
      (Text.through? [']'] row).map (2 + ·)
  | _ => none

/-- A variable, with one index or one member. -/
def interpolatedVariable : Recogniser := fun s =>
  match andThen (Text.literal ['$']) name s with
  | none => none
  | some n =>
    let rest := s.drop n
    let access := firstOf [index, andThen (Text.literal "->".toList) name] rest
    some (n + access.getD 0)

/-- A doubly braced expression. -/
def bracedVariable : Recogniser :=
  andThen (Text.literal "\x7b$\x7b".toList) (through "\x7d\x7d".toList)

/-- A braced expression. -/
def bracedExpression : Recogniser :=
  andThen (before (Text.literal ['\x7b']) fun s => s.head? == some '$') (through ['\x7d'])

/-- A variable whose name is braced: up to the last brace before any white
space. -/
def bracedName : Recogniser := fun s =>
  if "$\x7b".toList.isPrefixOf s then
    let row := (s.drop 2).takeWhile (!isBlank ·)
    let beforeBrace := (row.reverse.dropWhile (· != '\x7d')).length
    if 2 ≤ beforeBrace then some (2 + beforeBrace) else none
  else none

end TemplateTidy.Php
