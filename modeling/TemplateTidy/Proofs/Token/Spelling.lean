import Mathlib.Data.List.Chain
import TemplateTidy.Proofs.Text.Case
import TemplateTidy.Proofs.Token.Grammar

/-!
# How tokens are spelt, and which may be neighbours

The grammar of kinds says where a tag of a segment may stand. This module says
what it looks like there.

* The lexer marks three texts as delimiters: `?>`, `<?`, and `<?php` in any
  letter case (`Php.delimiter_text`). No letter beyond ASCII counts as one of
  `<?php`, although letter case is that of all of Unicode.
* The reader of lexemes makes an opening tag of the second only where short tags
  are allowed or an equals sign follows, and of the third always
  (`Reading.opensAs_pieces`).
* Joining leaves no two neighbours that could still be joined, and no line break
  right behind a bare closing tag (`Piece.apart_join`).

Main results: `openTag_spelling`, `openTagWithEcho_spelling`, `tokenize_apart`.
-/

namespace TemplateTidy

/-! ## Letters of the opening tag -/

/-- The letters that spell an opening tag have no partners. -/
theorem toLower_of_sameLetter {p c : Char} (hp : p ∈ "<?php".toList) (h : sameLetter p c = true) :
    c.toLower = p := by
  have hpartners : ∀ p ∈ "<?php".toList,
      smallLetter p = p ∧ casePartners.lookup p.toNat = none ∧ p.toNat < 0x80 ∧
        p ∉ ['\x00', 'i', 'k'] := by
    decide +kernel
  obtain ⟨hsmall, hnone, hascii, hother⟩ := hpartners p hp
  unfold sameLetter at h
  rw [hsmall, hnone] at h
  simp only [Option.getD_none, List.contains_nil, Bool.or_false, beq_iff_eq] at h
  exact toLower_of_smallLetter hascii hother h

/-- What begins with a word in any letter case begins with the word in small letters,
if the word is part of an opening tag. -/
theorem Text.take_toLower {w s : Text} (hw : w ⊆ "<?php".toList)
    (h : Text.beginsIgnoringCase w s = true) : (s.take w.length).map Char.toLower = w := by
  induction w generalizing s with
  | nil => rfl
  | cons p w ih =>
    cases s with
    | nil => cases h
    | cons c s =>
      rw [Text.beginsIgnoringCase, Bool.and_eq_true] at h
      have hletter : c.toLower = p := toLower_of_sameLetter (hw (List.mem_cons_self ..)) h.1
      have hrest := ih (fun d hd => hw (List.mem_cons_of_mem p hd)) h.2
      rw [List.length_cons, List.take_succ_cons, List.map_cons, hletter, hrest]

/-! ## Delimiters -/

/-- The openers of a segment: the bare one, and the one with the name of the language
in any letter case. -/
def isOpener (s : Text) : Prop :=
  s = "<?".toList ∨ s.map Char.toLower = "<?php".toList

namespace Php

/-- A rule that applies is one of the rules, and it recognises the text. -/
theorem mem_of_applicable? {rules : List Rule} {s : Text} {rule : Rule} {n : Nat}
    (h : applicable? rules s = some (rule, n)) : rule ∈ rules ∧ rule.recognise s = some n := by
  obtain ⟨r, hr, hn⟩ := List.exists_of_findSome?_eq_some h
  obtain ⟨m, hm, heq⟩ := Option.map_eq_some_iff.mp hn
  obtain ⟨rfl, rfl⟩ := Prod.mk.inj heq
  exact ⟨hr, hm⟩

/-- The rules of markup that yield a delimiter recognise an opener. -/
theorem opener_of_markupRules {rule : Rule} (hrule : rule ∈ markupRules)
    (hyields : rule.yields = .one .delimiter) {s : Text} {n : Nat}
    (h : rule.recognise s = some n) : isOpener (s.take n) := by
  have honly : ∀ rule ∈ markupRules, rule.yields = .one .delimiter →
      rule.recognise = Recogniser.firstOf [word "<?php", Text.literal "<?".toList] := by
    simp [markupRules]
  rw [honly rule hrule hyields] at h
  obtain ⟨r, hr, hn⟩ := List.exists_of_findSome?_eq_some h
  rcases List.mem_cons.mp hr with rfl | hr
  · -- the long opener
    rw [word, Text.literalIgnoringCase] at hn
    split at hn
    · rename_i hbegins
      rw [← Option.some.inj hn]
      exact .inr (Text.take_toLower (List.Subset.refl _) hbegins)
    · cases hn
  · -- the bare one
    obtain rfl := List.mem_singleton.mp hr
    rw [Text.literal] at hn
    split at hn
    · rename_i hpre
      rw [← Option.some.inj hn]
      exact .inl (List.prefix_iff_eq_take.mp (List.isPrefixOf_iff_prefix.mp hpre)).symm
    · cases hn

/-- In code the only rule that yields a delimiter recognises the closing tag, whatever
the mode. -/
theorem close_of_modeRules {mode : Mode} {rule : Rule} (hrule : rule ∈ mode.rules)
    (hyields : rule.yields = .one .delimiter) : rule.recognise = Text.literal "?>".toList := by
  -- of the rules of code only the one for the closing tag yields a delimiter
  have hcode : ∀ rule ∈ codeRules, rule.yields = .one .delimiter →
      rule.recognise = Text.literal "?>".toList := by
    simp [codeRules]
  cases mode with
  | code => exact hcode rule hrule hyields
  -- the rules that a mode puts in front yield none
  | computedName | arguments =>
    rcases List.mem_cons.mp hrule with rfl | hrule
    · cases hyields
    · exact hcode rule hrule hyields
  | attributes =>
    rcases List.mem_cons.mp hrule with rfl | hrule
    · cases hyields
    rcases List.mem_cons.mp hrule with rfl | hrule
    · cases hyields
    rcases List.mem_cons.mp hrule with rfl | hrule
    · cases hyields
    · exact hcode rule hrule hyields
  | className =>
    obtain rfl := List.mem_singleton.mp hrule
    cases hyields
  | functionName =>
    rcases List.mem_cons.mp hrule with rfl | hrule
    · cases hyields
    · obtain rfl := List.mem_singleton.mp hrule
      cases hyields
  | string =>
    have hstring : ∀ rule ∈ stringRules, rule.yields ≠ .one .delimiter := by
      simp [stringRules]
    exact absurd hyields (hstring rule hrule)

/-- What a rule recognises as a delimiter is a closing tag or an opener. -/
theorem delimiter_of_applicable? {modes : List Mode} {s : Text} {rule : Rule} {n : Nat}
    (h : applicable? (rulesOf modes) s = some (rule, n)) (hyields : rule.yields = .one .delimiter) :
    s.take n = "?>".toList ∨ isOpener (s.take n) := by
  obtain ⟨hrule, hn⟩ := mem_of_applicable? h
  cases modes with
  | nil => exact .inr (opener_of_markupRules hrule hyields hn)
  | cons mode below =>
    rw [close_of_modeRules hrule hyields, Text.literal] at hn
    split at hn
    · rename_i hpre
      rw [← Option.some.inj hn]
      exact .inl (List.prefix_iff_eq_take.mp (List.isPrefixOf_iff_prefix.mp hpre)).symm
    · cases hn

/-- A rule that applies takes at least one character: the lexer takes the first one
in any case. -/
theorem take_of_applicable? (c : Char) (cs : Text) {n : Nat} (hn : n ≠ 0) :
    (c :: cs).take n = c :: cs.take (n - 1) := by
  obtain ⟨m, rfl⟩ := Nat.exists_eq_succ_of_ne_zero hn
  rfl

/-- **The lexer marks closing tags and openers as delimiters, and nothing else**,
whatever the stack of modes and also in an interpolation that is lexed afresh. -/
theorem delimiter_text (modes : List Mode) (s : Text) :
    ∀ x ∈ lex modes s, x.kind = .delimiter → x.text = "?>".toList ∨ isOpener x.text := by
  fun_induction lex modes s with
  | case1 => exact List.forall_mem_nil _
  | case2 modes c cs rule n hrule body lexemes ih₁ ih₂ =>
    refine List.forall_mem_append.mpr ⟨?_, ih₂⟩
    simp only [lexemes]
    split
    · rename_i kind hyields
      refine List.forall_mem_singleton.mpr fun hkind => ?_
      have hdelimiter : rule.yields = .one .delimiter := by rw [hyields, show kind = _ from hkind]
      have htext := delimiter_of_applicable? hrule hdelimiter
      -- neither of the two is empty, so the text is what was recognised
      have hn : n ≠ 0 := by
        rintro rfl
        rcases htext with h | h | h <;> simp at h
      rwa [take_of_applicable? c cs hn] at htext
    · rename_i head tail _
      -- the frame of an interpolation is plain
      have hplain : Lexeme.Class.plain ≠ .delimiter := by decide
      refine List.forall_mem_cons.mpr ⟨fun h => absurd h hplain, ?_⟩
      exact List.forall_mem_append.mpr
        ⟨ih₁ head tail, List.forall_mem_singleton.mpr fun h => absurd h hplain⟩
  | case3 c cs below hnone ih => exact ih
  | case4 cs modes hmodes hnone ih =>
    refine List.forall_mem_cons.mpr ⟨?_, ih⟩
    intro hkind
    cases hkind
  | case5 c cs modes hmodes hnone hc ih =>
    refine List.forall_mem_cons.mpr ⟨?_, ih⟩
    intro hkind
    cases hkind

end Php

/-! ## Opening tags -/

/-- An opening tag is spelt as its kind demands. -/
structure Piece.OpensAs (shortTags : Bool) (p : Piece) : Prop where
  echo : p.kind = .openTagWithEcho → p.text = "<?=".toList
  plain : p.kind = .openTag →
    p.text.map Char.toLower = "<?php".toList ∨ (shortTags = true ∧ p.text = "<?".toList)

/-- A piece that opens nothing is spelt as it may be. -/
theorem Piece.OpensAs.of_other {shortTags : Bool} {κ : Token.Kind} {s : Text}
    (hκ : κ.isOpen = false) : Piece.OpensAs shortTags ⟨κ, s⟩ := by
  constructor
  · intro h
    rw [show κ = .openTagWithEcho from h] at hκ
    cases hκ
  · intro h
    rw [show κ = .openTag from h] at hκ
    cases hκ

namespace Reading

variable {shortTags : Bool}

/-- A step inside a segment yields no opening tag. -/
theorem opensAs_stepInside (x : Lexeme) :
    ∀ p ∈ (stepInside x).1, p.OpensAs shortTags := by
  unfold stepInside
  split
  · exact List.forall_mem_singleton.mpr (.of_other rfl)
  · refine List.forall_mem_singleton.mpr (.of_other ?_)
    cases x.kind <;> rfl

/-- A step in markup that looks like a segment yields none either. -/
theorem opensAs_stepLiteral (x : Lexeme) :
    ∀ p ∈ (stepLiteral x).1, p.OpensAs shortTags :=
  List.forall_mem_singleton.mpr (.of_other rfl)

/-- A step outside of segments yields an opening tag only if that has the name of the language. -/
theorem opensAs_stepOutside {x : Lexeme}
    (hx : x.kind = .delimiter → x.text = "?>".toList ∨ isOpener x.text) :
    ∀ p ∈ (stepOutside x).1, p.OpensAs shortTags := by
  unfold stepOutside
  split
  · rename_i hopen
    split
    · exact List.forall_mem_nil _
    · rename_i hbare
      refine List.forall_mem_singleton.mpr ⟨(fun h => nomatch h), fun _ => .inl ?_⟩
      -- neither a closing tag nor the bare opener
      rw [Lexeme.isOpen, Bool.and_eq_true] at hopen
      rcases hx (beq_iff_eq.mp hopen.1) with hclose | hopener | hopener
      · rw [hclose] at hopen
        exact absurd hopen.2 (by decide)
      · exact absurd hopener hbare
      · exact hopener
  · exact List.forall_mem_singleton.mpr (.of_other rfl)

/-- A bare opener is judged by what follows and by whether short tags count. -/
theorem opensAs_stepPending (x : Lexeme) :
    ∀ p ∈ (stepPending shortTags "<?".toList x).1, p.OpensAs shortTags := by
  have hecho : Piece.OpensAs shortTags ⟨.openTagWithEcho, "<?".toList ++ ['=']⟩ :=
    ⟨fun _ => rfl, (fun h => nomatch h)⟩
  unfold stepPending
  split
  · exact List.forall_mem_singleton.mpr hecho
  · exact List.forall_mem_cons.mpr ⟨hecho, opensAs_stepInside _⟩
  · split
    · rename_i hshort
      have hbare : Piece.OpensAs shortTags ⟨.openTag, "<?".toList⟩ :=
        ⟨(fun h => nomatch h), fun _ => .inr ⟨hshort, rfl⟩⟩
      exact List.forall_mem_cons.mpr ⟨hbare, opensAs_stepInside x⟩
    · exact List.forall_mem_cons.mpr ⟨.of_other rfl, opensAs_stepLiteral x⟩

/-- One lexeme. -/
theorem opensAs_step {r : Reading} (hr : r.HoldsOpener) {x : Lexeme}
    (hx : x.kind = .delimiter → x.text = "?>".toList ∨ isOpener x.text) :
    ∀ p ∈ (r.step shortTags x).1, p.OpensAs shortTags := by
  cases r with
  | outside => exact opensAs_stepOutside hx
  | pending opener =>
    obtain rfl := hr opener rfl
    exact opensAs_stepPending x
  | literal => exact opensAs_stepLiteral x
  | inside => exact opensAs_stepInside x

/-- All lexemes. -/
theorem opensAs_pieces {r : Reading} (hr : r.HoldsOpener) {xs : List Lexeme}
    (hxs : ∀ x ∈ xs, x.kind = .delimiter → x.text = "?>".toList ∨ isOpener x.text) :
    ∀ p ∈ pieces shortTags r xs, p.OpensAs shortTags := by
  induction xs generalizing r with
  | nil =>
    cases r with
    | pending opener =>
      -- a bare opener at the end of the text
      obtain rfl := hr opener rfl
      refine List.forall_mem_singleton.mpr ?_
      cases shortTags with
      | false => exact .of_other rfl
      | true => exact ⟨(fun h => nomatch h), fun _ => .inr ⟨rfl, rfl⟩⟩
    | outside | literal | inside => exact List.forall_mem_nil _
  | cons x xs ih =>
    obtain ⟨hx, hrest⟩ := List.forall_mem_cons.mp hxs
    rw [pieces]
    split
    · exact ih hr hrest
    · have hnext := (bare_step shortTags hr x).2
      exact List.forall_mem_append.mpr ⟨opensAs_step hr hx, ih hnext hrest⟩

end Reading

namespace Piece

/-- Joining a piece leaves the spelling of opening tags. -/
theorem opensAs_cons {shortTags : Bool} {p : Piece} {ps : List Piece} (hp : p.OpensAs shortTags)
    (hps : ∀ q ∈ ps, q.OpensAs shortTags) : ∀ r ∈ cons p ps, r.OpensAs shortTags := by
  intro r hr
  rcases mem_cons_cases hr with
    rfl | hr | hkind | ⟨hmerge, more, rfl⟩ | ⟨-, markup, rfl⟩
  · exact hp
  · exact hps r hr
  · obtain ⟨κ, s⟩ := r
    obtain rfl : κ = .inlineHtml := hkind
    exact .of_other rfl
  · -- opening tags are not joined
    refine .of_other ?_
    cases hκ : p.kind <;> simp [hκ, Token.Kind.isMergeable] at hmerge <;> rfl
  · exact .of_other rfl

/-- So does joining all pieces. -/
theorem opensAs_join {shortTags : Bool} {ps : List Piece} (hps : ∀ p ∈ ps, p.OpensAs shortTags) :
    ∀ p ∈ join ps, p.OpensAs shortTags := by
  induction ps with
  | nil => exact List.forall_mem_nil _
  | cons p ps ih =>
    obtain ⟨hp, hrest⟩ := List.forall_mem_cons.mp hps
    exact opensAs_cons hp (ih hrest)

/-! ## Neighbours -/

/-- The pieces may be neighbours once everything is joined: they are not of one kind
that could be joined, and a bare closing tag has no line feed behind it. -/
structure Apart (p q : Piece) : Prop where
  kinds : p.kind = q.kind → p.kind.isMergeable = false
  feed : p.kind = .closeTag → p.text = "?>".toList → q.kind = .inlineHtml →
    q.text.head? ≠ some '\n'

/-- A line feed at the front of a text is taken as its line break. -/
theorem head?_drop_leadingBreak {s : Text} (h : leadingBreak s = 0) : s.head? ≠ some '\n' := by
  intro hfeed
  obtain ⟨rest, rfl⟩ := List.head?_eq_some_iff.mp hfeed
  cases h

/-- A closing tag that takes over a line break has no other one behind it. -/
theorem apart_absorb {close markup : Text} {rest : List Piece} (hclose : close = "?>".toList)
    (hnext : List.IsChain Apart (⟨.inlineHtml, markup⟩ :: rest)) :
    List.IsChain Apart (absorb close markup rest) := by
  obtain ⟨hhead, hrest⟩ := List.isChain_cons.mp hnext
  -- whatever follows the markup is no markup
  have hother : ∀ r ∈ rest.head?, r.kind ≠ .inlineHtml := by
    intro r hr hkind
    exact Bool.noConfusion ((hhead r hr).kinds hkind.symm)
  unfold absorb
  dsimp only
  split
  · refine List.isChain_cons.mpr ⟨fun r hr => ⟨fun _ => rfl, fun _ _ hkind => ?_⟩, hrest⟩
    exact absurd hkind (hother r hr)
  · refine List.isChain_cons_cons.mpr ⟨⟨fun _ => rfl, fun _ hbare _ => ?_⟩, ?_⟩
    · -- a bare tag has taken nothing over
      have hnone : leadingBreak markup = 0 := by
        have hlength := congrArg List.length hbare
        simp only [hclose, List.length_append, List.length_take] at hlength
        rcases leadingBreak_cases markup with hbreak | hbreak | hbreak
        · by_contra hne
          rw [List.take_eq_nil_iff] at hbreak
          rcases hbreak with hbreak | hbreak
          · exact hne hbreak
          · rw [hbreak] at hne
            exact hne rfl
        · have htwo := congrArg List.length hbreak
          simp only [List.length_take, List.length_cons, List.length_nil] at htwo
          omega
        · have htwo := congrArg List.length hbreak
          simp only [List.length_take, List.length_cons, List.length_nil] at htwo
          omega
      rw [hnone, List.drop_zero]
      exact head?_drop_leadingBreak hnone
    · refine List.isChain_cons.mpr ⟨fun r hr => ⟨fun hkind => ?_, (fun h => nomatch h)⟩, hrest⟩
      exact absurd hkind.symm (hother r hr)

/-- One more piece in front: it is joined, gives its line break away, or was apart from
the next one already. -/
theorem apart_cons {p : Piece} {ps : List Piece} (hp : p.Bare) (hps : List.IsChain Apart ps) :
    List.IsChain Apart (cons p ps) := by
  cases ps with
  | nil => exact List.isChain_singleton p
  | cons q rest =>
    obtain ⟨hhead, hrest⟩ := List.isChain_cons.mp hps
    rw [cons]
    split
    · -- the joined piece has the kind of the one that was there
      rename_i hsame
      refine List.isChain_cons.mpr ⟨fun r hr => ⟨fun hkind => ?_, fun hclose => ?_⟩, hrest⟩
      · exact hsame.1 ▸ (hhead r hr).kinds (hsame.1 ▸ hkind)
      · have hmerge := hsame.2
        rw [show p.kind = .closeTag from hclose] at hmerge
        cases hmerge
    · rename_i hsame
      split
      · rename_i hclose
        refine apart_absorb (hp.closes hclose.1) ?_
        rwa [← hclose.2]
      · rename_i hclose
        refine List.isChain_cons_cons.mpr ⟨⟨fun hkind => ?_, fun hκ _ hκ' => ?_⟩, hps⟩
        · exact Bool.eq_false_iff.mpr fun hmerge => hsame ⟨hkind, hmerge⟩
        · exact absurd ⟨hκ, hκ'⟩ hclose

/-- **Joined pieces are apart.** -/
theorem apart_join {ps : List Piece} (hps : ∀ p ∈ ps, p.Bare) :
    List.IsChain Apart (join ps) := by
  induction ps with
  | nil => exact List.isChain_nil
  | cons p ps ih =>
    obtain ⟨hp, hrest⟩ := List.forall_mem_cons.mp hps
    exact apart_cons hp (ih hrest)

/-- What holds of neighbouring pieces holds of the tokens made from them. -/
theorem isChain_locate {R : Piece → Piece → Prop} {ps : List Piece} (h : List.IsChain R ps)
    (start : Nat) :
    List.IsChain (fun t u : Token => R ⟨t.kind, t.text⟩ ⟨u.kind, u.text⟩) (locate start ps) := by
  induction ps generalizing start with
  | nil => exact List.isChain_nil
  | cons p ps ih =>
    obtain ⟨hhead, hrest⟩ := List.isChain_cons.mp h
    refine List.isChain_cons.mpr ⟨fun u hu => ?_, ih hrest _⟩
    cases ps with
    | nil => cases hu
    | cons q rest =>
      obtain rfl := Option.some.inj hu
      exact hhead q rfl

end Piece

/-! ## Tokens -/

/-- The pieces of a template are bare. -/
theorem bare_lexemes (shortTags : Bool) (s : Text) :
    ∀ p ∈ Reading.pieces shortTags .outside (Php.lexemes s), p.Bare :=
  Reading.bare_pieces (by simp [Reading.HoldsOpener]) _

/-- Neighbouring tokens are apart. -/
theorem tokenize_apart (shortTags : Bool) (s : Text) :
    List.IsChain (fun t u : Token => Piece.Apart ⟨t.kind, t.text⟩ ⟨u.kind, u.text⟩)
      (tokenize shortTags s) :=
  Piece.isChain_locate (Piece.apart_join (bare_lexemes shortTags s)) 0

/-- Every token opens a segment as its kind demands. -/
theorem exists_opensAs {shortTags : Bool} {s : Text} {t : Token} (ht : t ∈ tokenize shortTags s) :
    Piece.OpensAs shortTags ⟨t.kind, t.text⟩ := by
  obtain ⟨p, hp, hkind, htext⟩ := Piece.exists_of_mem_locate ht
  have hpieces : ∀ p ∈ Reading.pieces shortTags .outside (Php.lexemes s), p.OpensAs shortTags :=
    Reading.opensAs_pieces (by simp [Reading.HoldsOpener]) (Php.delimiter_text [] s)
  rw [hkind, htext]
  exact Piece.opensAs_join hpieces p hp

/-- An opening tag that prints its value is `<?=`. -/
theorem openTagWithEcho_spelling {shortTags : Bool} {s : Text} {t : Token}
    (ht : t ∈ tokenize shortTags s) (hkind : t.kind = .openTagWithEcho) :
    t.text = "<?=".toList :=
  (exists_opensAs ht).echo hkind

/-- Any other opening tag is `<?php` in some letter case, or `<?` if short tags are
allowed. -/
theorem openTag_spelling {shortTags : Bool} {s : Text} {t : Token}
    (ht : t ∈ tokenize shortTags s) (hkind : t.kind = .openTag) :
    t.text.map Char.toLower = "<?php".toList ∨ (shortTags = true ∧ t.text = "<?".toList) :=
  (exists_opensAs ht).plain hkind

end TemplateTidy
