import TemplateTidy.Php.Lexeme
import TemplateTidy.Php.Pattern

/-!
# Lexical rules of PHP

The text is read in one of several modes, each with its own list of rules; the
first rule that recognises something applies. A rule says what its lexeme is
and which mode comes next. Modes are stacked: markup lies at the bottom, and
above it the modes that have been entered and not yet left.
-/

namespace TemplateTidy.Php

/-- How the text is read inside a code segment. -/
inductive Mode where
  | code
  /-- Inside a variable whose name is computed. -/
  | computedName
  | className
  | functionName
  /-- Inside a string with interpolations. -/
  | string
  | attributes
  /-- Inside the arguments of an attribute. -/
  | arguments
  deriving Repr, DecidableEq

/-- What a rule does to the stack of modes. -/
inductive Move where
  | stay
  | enter (mode : Mode)
  | leave
  deriving Repr, DecidableEq

/-- The stack after a move. The bottom, which is markup, cannot be left. -/
def Move.apply : Move → List Mode → List Mode
  | stay, modes => modes
  | enter mode, modes => mode :: modes
  | leave, modes => modes.tail

/-- A move makes the stack taller by one mode at most. -/
theorem Move.length_apply_le (m : Move) (modes : List Mode) :
    (m.apply modes).length ≤ modes.length + 1 := by
  cases m with
  | stay => exact Nat.le_succ _
  | enter mode => exact Nat.le_refl _
  | leave =>
    rw [Move.apply, List.length_tail]
    omega

/-- What becomes of the characters that a rule recognises. -/
inductive Yield where
  /-- They form one lexeme. -/
  | one (kind : Lexeme.Class)
  /-- Between the given numbers of characters at either end they are code
  again. -/
  | interpolation (head tail : Nat)
  deriving Repr, DecidableEq

/-- A lexical rule. -/
structure Rule where
  recognise : Recogniser
  yields : Yield := .one .plain
  move : Move := .stay

open Recogniser

/-- The rules of markup: everything is plain up to an opening tag. -/
def markupRules : List Rule :=
  [{ recognise := firstOf [word "<?php", Text.literal "<?".toList],
     yields := .one .delimiter, move := .enter .code },
   { recognise := many (· != '<') },
   { recognise := Text.literal ['<'] }]

/-- The rules of code. -/
def codeRules : List Rule :=
  [{ recognise := Text.literal "?>".toList, yields := .one .delimiter, move := .leave },
   -- before the operators, for which its opener would be taken
   { recognise := heredoc },
   { recognise := gap 1 },
   -- before the comments, which begin with the same sign
   { recognise := Text.literal "#[".toList, move := .enter .attributes },
   { recognise := lineComment "#", yields := .one .comment },
   { recognise := lineComment "//", yields := .one .comment },
   -- with two stars a comment documents the code and is read as part of it, if it is not empty
   { recognise := Text.literal "/**/".toList, yields := .one .comment },
   { recognise := blockComment "/**" },
   { recognise := blockComment "/*", yields := .one .comment },
   { recognise := member },
   { recognise := operators },
   { recognise := Text.literal ['?'] },
   { recognise := punctuation },
   -- words with something behind them before those that stand alone
   { recognise := newClass },
   { recognise := classHead, move := .enter .className },
   { recognise := functionExpression },
   { recognise := functionHead, move := .enter .functionName },
   { recognise := constant },
   { recognise := oneOf keywords },
   { recognise := Text.literal "$\x7b".toList, move := .enter .computedName },
   { recognise := dollarName },
   { recognise := path },
   { recognise := number },
   { recognise := quotedBy '\'' },
   { recognise := quotedBy (Char.ofNat 0x60) },
   { recognise := Text.literal ['"'], move := .enter .string }]

/-- The rules of strings with interpolations. -/
def stringRules : List Rule :=
  [{ recognise := Text.literal ['"'], move := .leave },
   { recognise := stringChars },
   { recognise := escape },
   { recognise := interpolatedVariable },
   -- of `{${a}}` the name alone is left to be read as code, of `{$a}` the dollar sign as well
   { recognise := bracedVariable, yields := .interpolation 3 2 },
   { recognise := bracedExpression, yields := .interpolation 1 1 },
   { recognise := bracedName },
   { recognise := run "$\x7b\\".toList.contains fun _ => false }]

/-- The rules of a mode. -/
def Mode.rules : Mode → List Rule
  | code => codeRules
  | computedName => { recognise := Text.literal ['\x7d'], move := .leave } :: codeRules
  | className => [{ recognise := path, move := .leave }]
  | functionName => [{ recognise := oneOf magicMethods }, { recognise := path, move := .leave }]
  | string => stringRules
  | attributes =>
    { recognise := Text.literal [']'], move := .leave } ::
      { recognise := Text.literal ['('], move := .enter .arguments } ::
      { recognise := path } :: codeRules
  | arguments => { recognise := Text.literal [')'], move := .leave } :: codeRules

/-- The rules that apply under a stack of modes. -/
def rulesOf : List Mode → List Rule
  | [] => markupRules
  | mode :: _ => mode.rules

/-- The first rule that recognises something, and how much it recognises. -/
def applicable? (rules : List Rule) (s : Text) : Option (Rule × Nat) :=
  rules.findSome? fun rule => (rule.recognise s).map (rule, ·)

end TemplateTidy.Php
