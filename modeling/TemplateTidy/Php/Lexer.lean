import TemplateTidy.Php.Rule

/-!
# Cutting a template into lexemes

The lexer applies the rules of the mode on top of the stack until the text is
used up. Every step takes at least one character, so the lexemes put back
together are the text again.

Where no rule applies, a mode that only waits for a function's name is left; a
line feed drops all modes, as if the text outside of code began anew; and any
other character is an error of its own.
-/

namespace TemplateTidy.Php

/-- The lexemes of a text that is read under a stack of modes. -/
def lex (modes : List Mode) (s : Text) : List Lexeme :=
  match s with
  | [] => []
  | c :: cs =>
    match applicable? (rulesOf modes) (c :: cs) with
    | some (rule, n) =>
      let body := cs.take (n - 1)
      let lexemes :=
        match rule.yields with
        | .one kind => [⟨kind, c :: body⟩]
        | .interpolation head tail =>
          -- read afresh, under no mode but code, so that nothing in it leaves the string
          let inner := body.drop (head - 1)
          let width := inner.length - tail
          ⟨.plain, c :: body.take (head - 1)⟩ ::
            (lex [.code] (inner.take width) ++ [⟨.plain, inner.drop width⟩])
      lexemes ++ lex (rule.move.apply modes) (cs.drop (n - 1))
    | none =>
      match modes with
      -- the mode is given up, and the same character is tried below it
      | .functionName :: below => lex below (c :: cs)
      | modes =>
        if c = '\n' then ⟨.plain, [c]⟩ :: lex [] cs
        else ⟨.error, [c]⟩ :: lex modes cs
-- giving up a mode takes no character, and a rule that takes one may enter a mode
termination_by 2 * s.length + modes.length
decreasing_by
  · simp only [List.length_take, List.length_drop, List.length_cons, List.length_nil]
    omega
  · have grown := rule.move.length_apply_le modes
    simp only [List.length_drop, List.length_cons]
    omega
  · simp only [List.length_cons]
    omega
  · simp only [List.length_cons, List.length_nil]
    omega
  · simp only [List.length_cons]
    omega

/-- The lexemes of a template. -/
def lexemes (s : Text) : List Lexeme :=
  lex [] s

end TemplateTidy.Php
