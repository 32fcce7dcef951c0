import TemplateTidy.Proofs.Php.Ending
import TemplateTidy.Proofs.Token.Spelling

/-!
# Seams of lexemes

Where something forbidden lies across the seam of two lexemes, the two are of one
class. This is seen by going over the seams that the lexer makes.

* Behind a rule of code there is no such seam, because the rule settles.
* An interpolation adds two seams, one behind an opening brace and one before a
  closing brace, and braces are part of nothing forbidden.
* In markup a bracket may be cut off a slash. Both are plain.
* A hook is taken for an error only where the name of a class is awaited. Whatever
  stands behind it in something forbidden is an error there as well.

Main results: `Php.nonempty_lex`, `Php.isChain_lex`.
-/

namespace TemplateTidy

/-- Something forbidden may lie across the seam of two lexemes only if they are of one
class. -/
def Lexeme.Seam (x y : Lexeme) : Prop :=
  Text.Straddles x.text y.text → x.kind = y.kind

/-- A seam that divides nothing forbidden may be anywhere. -/
theorem Lexeme.Seam.of_not {x y : Lexeme} (h : ¬ Text.Straddles x.text y.text) : x.Seam y :=
  fun hs => absurd hs h

namespace Php

open Recogniser

/-! ## One rule -/

/-- A rule that applies takes at least one character and settles, unless it is the one
for a bracket in markup. -/
theorem settled_of_applicable? {modes : List Mode} {c : Char} {cs : Text} {rule : Rule} {n : Nat}
    (h : applicable? (rulesOf modes) (c :: cs) = some (rule, n)) :
    n ≠ 0 ∧ (¬ Text.Straddles (c :: cs.take (n - 1)) (cs.drop (n - 1)) ∨
      (modes = [] ∧ c = '<' ∧ n = 1 ∧ rule = { recognise := Text.literal ['<'] })) := by
  obtain ⟨hrule, hn⟩ := mem_of_applicable? h
  -- the first character is always taken, so the seam can be told by what is left of `cs`
  have hsettled : ∀ {r : Recogniser}, Settles r → r (c :: cs) = some n →
      n ≠ 0 ∧ ¬ Text.Straddles (c :: cs.take (n - 1)) (cs.drop (n - 1)) := by
    intro r hr hn
    obtain ⟨hne, hseam⟩ := hr _ n hn
    have hzero : n ≠ 0 := by
      rintro rfl
      exact hne rfl
    obtain ⟨m, rfl⟩ := Nat.exists_eq_succ_of_ne_zero hzero
    exact ⟨hzero, hseam⟩
  cases modes with
  | cons mode below =>
    obtain ⟨hzero, hseam⟩ := hsettled (settles_of_mem_rules hrule) hn
    exact ⟨hzero, .inl hseam⟩
  | nil =>
    rcases settles_of_mem_markupRules hrule with hr | rfl
    · obtain ⟨hzero, hseam⟩ := hsettled hr hn
      exact ⟨hzero, .inl hseam⟩
    · -- the rule for a bracket takes it alone, and may divide the opener of a segment
      obtain ⟨hone, hpre⟩ := of_literal hn
      have hbracket := (List.cons_prefix_cons.mp hpre).1
      obtain rfl : n = 1 := hone
      exact ⟨Nat.one_ne_zero, .inr ⟨rfl, hbracket.symm, rfl, rfl⟩⟩

/-- The three parts of an interpolation as the lexer cuts them. -/
theorem frame_of_applicable? {modes : List Mode} {c : Char} {cs : Text} {rule : Rule} {n : Nat}
    (h : applicable? (rulesOf modes) (c :: cs) = some (rule, n)) {head tail : Nat}
    (hyields : rule.yields = .interpolation head tail) :
    let body := cs.take (n - 1)
    let inner := body.drop (head - 1)
    let closer := inner.drop (inner.length - tail)
    (c :: body.take (head - 1)).getLast? = some '\x7b' ∧ closer.head? = some '\x7d' ∧
      closer.getLast? = (c :: body).getLast? := by
  intro body inner closer
  obtain ⟨hrule, hn⟩ := mem_of_applicable? h
  obtain ⟨opener, code, close, hframe, hhead, htail, hopen, hclose⟩ := exists_frame hrule hyields hn
  rw [take_of_applicable? c cs (settled_of_applicable? h).1] at hframe
  -- the first character belongs to the opener
  obtain ⟨d, opener, rfl⟩ := List.exists_cons_of_ne_nil (l := opener) (by rintro rfl; cases hopen)
  obtain ⟨rfl, hbody⟩ := List.cons.inj hframe
  have hhead' : head - 1 = opener.length := by
    rw [← hhead]
    rfl
  have hbody' : body = opener ++ (code ++ close) := hbody.trans (List.append_assoc ..)
  have hinner : inner = code ++ close := by
    rw [show inner = body.drop (head - 1) from rfl, hbody', hhead', List.drop_left]
  have hcloser : closer = close := by
    rw [show closer = inner.drop (inner.length - tail) from rfl, hinner, List.length_append, htail,
      Nat.add_sub_cancel, List.drop_left]
  refine ⟨?_, hcloser ▸ hclose, ?_⟩
  · rw [hbody', hhead', List.take_left]
    exact hopen
  · have hne : close ≠ [] := by
      rintro rfl
      cases hclose
    rw [hcloser, hbody', ← List.append_assoc, ← List.cons_append,
      List.getLast?_append_of_ne_nil _ hne]

/-- **No lexeme is empty.** -/
theorem nonempty_lex (modes : List Mode) (s : Text) : ∀ x ∈ lex modes s, x.text ≠ [] := by
  fun_induction lex modes s with
  | case1 => exact List.forall_mem_nil _
  | case2 modes c cs rule n hrule body lexemes ih₁ ih₂ =>
    refine List.forall_mem_append.mpr ⟨?_, ih₂⟩
    simp only [lexemes]
    split
    · exact List.forall_mem_singleton.mpr (List.cons_ne_nil _ _)
    · rename_i head tail hyields
      obtain ⟨-, hclose, -⟩ := frame_of_applicable? hrule hyields
      refine List.forall_mem_cons.mpr ⟨List.cons_ne_nil _ _, ?_⟩
      refine List.forall_mem_append.mpr ⟨ih₁ head tail, List.forall_mem_singleton.mpr ?_⟩
      -- the tail of an interpolation begins with its closing brace
      intro hnil
      rw [show List.drop _ _ = [] from hnil] at hclose
      cases hclose
  | case3 c cs below hnone ih => exact ih
  | case4 cs modes hmodes hnone ih =>
    exact List.forall_mem_cons.mpr ⟨List.cons_ne_nil _ _, ih⟩
  | case5 c cs modes hmodes hnone hc ih =>
    exact List.forall_mem_cons.mpr ⟨List.cons_ne_nil _ _, ih⟩

/-- The first lexeme begins like the text. -/
theorem head?_lex {modes : List Mode} {s : Text} {y : Lexeme} (hy : y ∈ (lex modes s).head?) :
    y.text.head? = s.head? := by
  obtain ⟨ys, hys⟩ := List.head?_eq_some_iff.mp hy
  have htext := lex_text modes s
  have hne := nonempty_lex modes s y (List.mem_of_head? hy)
  rw [hys, List.flatMap_cons] at htext
  rw [← htext, List.head?_append_of_ne_nil _ hne]

/-- A seam before a text is the seam before its first lexeme. -/
theorem straddles_of_lex {modes : List Mode} {s t : Text} {y : Lexeme}
    (hy : y ∈ (lex modes s).head?) (h : Text.Straddles t y.text) : Text.Straddles t s := by
  obtain ⟨a, ha, b, hb, hab⟩ := h
  exact ⟨a, ha, b, head?_lex hy ▸ hb, hab⟩

/-! ## The exceptions -/

/-- In markup a slash belongs to something plain. -/
theorem plain_of_slash {cs : Text} {y : Lexeme} (hy : y ∈ (lex [] ('/' :: cs)).head?) :
    y.kind = .plain := by
  have happlies : applicable? (rulesOf []) ('/' :: cs) =
      some ({ recognise := many (· != '<') }, 1 + Text.leading (· != '<') cs) := rfl
  rw [lex, happlies] at hy
  · obtain rfl := Option.some.inj hy
    rfl
  · intro below h
    cases h

/-- A bracket that is cut off a slash in markup is plain, and so is what the slash
belongs to. -/
theorem plain_of_bracket {cs : Text} (h : Text.Straddles ['<'] cs) {y : Lexeme}
    (hy : y ∈ (lex [] cs).head?) : y.kind = .plain := by
  obtain ⟨a, ha, b, hb, hab⟩ := h
  have hslash : ∀ p ∈ Text.divisions, p.1 = '<' → p.2 = '/' := by decide
  obtain rfl : b = '/' := hslash _ hab (Option.some.inj ha).symm
  obtain ⟨rest, rfl⟩ := List.head?_eq_some_iff.mp hb
  exact plain_of_slash hy

/-- Where the name of a class is awaited, a character that cannot begin one is an
error. -/
theorem error_of_className {below : List Mode} {b : Char} {cs : Text}
    (hb : b ∈ Text.divisions.map Prod.snd) {y : Lexeme}
    (hy : y ∈ (lex (.className :: below) (b :: cs)).head?) : y.kind = .error := by
  have hchar : ∀ b ∈ Text.divisions.map Prod.snd,
      (isNameStart b || b == '\\') = false ∧ b ≠ '\n' := by
    decide
  obtain ⟨hstart, hfeed⟩ := hchar b hb
  have hnone : applicable? (rulesOf (.className :: below)) (b :: cs) = none := by
    have hpath : path (b :: cs) = none := by
      rw [path, run, hstart]
      rfl
    simp [rulesOf, Mode.rules, applicable?, hpath]
  rw [lex, hnone] at hy
  · simp only [if_neg hfeed] at hy
    obtain rfl := Option.some.inj hy
    rfl
  · intro below h
    cases h

/-- A hook fits no rule only where a name is awaited. -/
theorem awaits_name_of_hook {modes : List Mode} {c : Char} {cs : Text} (hc : c ∈ Text.hooks)
    (h : applicable? (rulesOf modes) (c :: cs) = none) :
    ∃ below, modes = .className :: below ∨ modes = .functionName :: below := by
  -- everywhere else it belongs to the class of some rule
  have hfits : ∀ {p : Char → Bool}, p c = true → ∀ rule ∈ rulesOf modes,
      rule.recognise ≠ many p := by
    intro p hp rule hrule heq
    have hnone := List.findSome?_eq_none_iff.mp h rule hrule
    rw [heq, many, run, if_pos hp] at hnone
    cases hnone
  have hoperator : ∀ c ∈ Text.hooks, "~!%^&*+=|:.<>/@-".toList.contains c = true := by decide
  have hletter : ∀ c ∈ Text.hooks, (!"\x7b$\"\\".toList.contains c) = true := by decide
  have hcode : ∀ mode : Mode, codeRules ⊆ mode.rules → ∀ below, modes ≠ mode :: below := by
    rintro mode hsub below rfl
    exact hfits (hoperator c hc) { recognise := operators } (hsub (by simp [codeRules])) rfl
  cases modes with
  -- outside of segments every character has a rule
  | nil =>
    exfalso
    by_cases hbracket : c = '<'
    · have hnone := List.findSome?_eq_none_iff.mp h { recognise := Text.literal ['<'] }
        (by simp [rulesOf, markupRules])
      rw [hbracket] at hnone
      cases hnone
    · exact hfits (p := (· != '<')) (by simpa using hbracket) { recognise := many (· != '<') }
        (by simp [rulesOf, markupRules]) rfl
  | cons mode below =>
    cases mode with
    | className => exact ⟨below, .inl rfl⟩
    | functionName => exact ⟨below, .inr rfl⟩
    | string =>
      exfalso
      exact hfits (hletter c hc) { recognise := stringChars }
        (by simp [rulesOf, Mode.rules, stringRules]) rfl
    | code => exact absurd rfl (hcode .code (by simp [Mode.rules]) below)
    | computedName => exact absurd rfl (hcode .computedName (by simp [Mode.rules]) below)
    | attributes =>
      have hsub : codeRules ⊆ Mode.attributes.rules := fun rule hrule => by
        simp [Mode.rules, hrule]
      exact absurd rfl (hcode .attributes hsub below)
    | arguments => exact absurd rfl (hcode .arguments (by simp [Mode.rules]) below)

/-! ## All lexemes -/

/-- **Seams of lexemes.** -/
theorem isChain_lex (modes : List Mode) (s : Text) : List.IsChain Lexeme.Seam (lex modes s) := by
  fun_induction lex modes s with
  | case1 => exact List.isChain_nil
  | case2 modes c cs rule n hrule body lexemes ih₁ ih₂ =>
    obtain ⟨hn, hsettled⟩ := settled_of_applicable? hrule
    simp only [lexemes]
    split
    · rename_i kind hyields
      refine List.isChain_cons.mpr ⟨fun y hy hseam => ?_, ih₂⟩
      have hstraddles := straddles_of_lex hy hseam
      rcases hsettled with hsettled | ⟨rfl, rfl, rfl, rfl⟩
      · exact absurd hstraddles hsettled
      · -- a bracket in markup: only a slash behind it could be meant
        obtain rfl := Yield.one.inj hyields
        exact (plain_of_bracket hstraddles hy).symm
    · rename_i head tail hyields
      obtain ⟨hopen, hclose, hlast⟩ := frame_of_applicable? hrule hyields
      refine List.isChain_cons.mpr ⟨fun y hy => .of_not ?_, ?_⟩
      · -- behind the opening brace
        rintro ⟨a, ha, b, -, hab⟩
        obtain rfl := Option.some.inj (hopen.symm.trans ha)
        exact absurd (Text.mem_hooks hab) (by decide)
      refine List.isChain_append.mpr ⟨?_, ih₂, fun x hx y hy => .of_not fun hseam => ?_⟩
      · refine List.isChain_append.mpr ⟨ih₁ head tail, List.isChain_singleton _, ?_⟩
        intro x hx y hy
        refine .of_not ?_
        -- before the closing brace
        rintro ⟨a, -, b, hb, hab⟩
        obtain rfl := Option.some.inj hy
        obtain rfl := Option.some.inj (hclose.symm.trans hb)
        have hbrace : ∀ p ∈ Text.divisions, p.2 ≠ '\x7d' := by decide
        exact hbrace _ hab rfl
      · -- behind the closing brace the rule has settled
        rw [List.getLast?_concat] at hx
        obtain rfl := Option.some.inj hx
        obtain ⟨a, ha, b, hb, hab⟩ := straddles_of_lex hy hseam
        rcases hsettled with hsettled | ⟨-, -, -, rfl⟩
        · exact hsettled ⟨a, hlast ▸ ha, b, hb, hab⟩
        · cases hyields
  | case3 c cs below hnone ih => exact ih
  | case4 cs modes hmodes hnone ih =>
    refine List.isChain_cons.mpr ⟨fun y hy => .of_not ?_, ih⟩
    rintro ⟨a, ha, b, -, hab⟩
    obtain rfl := Option.some.inj ha
    exact absurd (Text.mem_hooks hab) (by decide)
  | case5 c cs modes hmodes hfeed hnone ih =>
    refine List.isChain_cons.mpr ⟨fun y hy hseam => ?_, ih⟩
    obtain ⟨a, ha, b, hb, hab⟩ := straddles_of_lex hy hseam
    have hca : c = a := Option.some.inj ha
    obtain ⟨rest, rfl⟩ := List.head?_eq_some_iff.mp hb
    subst hca
    obtain ⟨below, rfl | rfl⟩ := awaits_name_of_hook (Text.mem_hooks hab) hnone
    · exact (error_of_className (List.mem_map_of_mem hab) hy).symm
    · exact absurd rfl (hmodes below)

end Php

end TemplateTidy
