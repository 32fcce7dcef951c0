import TemplateTidy.Beautify
import TemplateTidy.Proofs.Markup.Scan
import TemplateTidy.Proofs.Segment.Confine
import TemplateTidy.Proofs.Text.Trim

/-!
# Templates of one code segment

Whether a template is one code segment is told from its text alone, without
cutting it into tokens. The test is right about the tokens all the same.

* The opening tag that the test finds is the first that the lexer meets, and only
  white space comes before it (`Reading.pieces_openTag`).
* Behind it the reader stays in the segment up to a closing tag. That is a `?>`, and
  the test makes sure that what follows a `?>` is too short for another opening tag
  (`Reading.pieces_inside`).
* Joining takes a line break into the closing tag, so that at most one character of
  markup is left (`Piece.join_closing`).

So nothing of the template needs to be laid out, and it only loses the white space in
front. What is left is one code segment again, with no white space before it.

Main result: `wholeCodeBlock_skips_no_markup`.
-/

namespace TemplateTidy

/-! ## Opening tags -/

/-- An opening tag is `<?=`, or `<?php` in any letter case. -/
theorem openTag_cases {s : Text} {n : Nat} (h : openTag s = some n) :
    (∃ rest, s = "<?=".toList ++ rest) ∨ Text.beginsIgnoringCase "<?php".toList s = true := by
  obtain ⟨r, hr, hrn⟩ := List.exists_of_findSome?_eq_some h
  rcases List.mem_pair.mp hr with rfl | rfl
  · left
    obtain ⟨rest, hs⟩ := Sentinel.prefix_of_literal hrn
    exact ⟨rest, hs.symm⟩
  · right
    have hword := Recogniser.of_before hrn
    rw [Text.literalIgnoringCase] at hword
    split at hword
    · assumption
    · cases hword

/-- The longer opening tag begins with the bare opener, and is longer. -/
theorem exists_of_beginsIgnoringCase {s : Text}
    (h : Text.beginsIgnoringCase "<?php".toList s = true) :
    ∃ word rest, s = '<' :: '?' :: word ++ rest ∧ word.length = 3 := by
  have hspelt : (s.take 5).map Char.toLower = ['<', '?', 'p', 'h', 'p'] :=
    Text.take_toLower (List.Subset.refl _) h
  obtain ⟨c, tail, htake, hc, htail⟩ := List.map_eq_cons_iff.mp hspelt
  obtain ⟨d, word, rfl, hd, hword⟩ := List.map_eq_cons_iff.mp htail
  obtain rfl := eq_of_toLower (by decide) hc
  obtain rfl := eq_of_toLower (by decide) hd
  refine ⟨word, s.drop 5, ?_, by simpa using congrArg List.length hword⟩
  rw [← htake, List.take_append_drop]

/-- An opening tag begins with a bracket. -/
theorem head_of_openTag {s : Text} {n : Nat} (h : openTag s = some n) : s.head? = some '<' := by
  rcases openTag_cases h with ⟨rest, rfl⟩ | hword
  · rfl
  · obtain ⟨word, rest, rfl, -⟩ := exists_of_beginsIgnoringCase hword
    rfl

/-! ## Closing tags come at the end -/

namespace Text

/-- Nothing is trimmed where no white space stands in front. -/
theorem trimLeft_eq_self {s : Text} (h : ∀ c, s.head? = some c → isBlank c = false) :
    trimLeft s = s := by
  cases s with
  | nil => rfl
  | cons c s =>
    rw [trimLeft, List.dropWhile_cons_of_neg]
    rw [h c rfl]
    exact Bool.false_ne_true

/-- Behind white space, trimming goes on with the rest. -/
theorem trimLeft_append {pad : Text} (hpad : pad.Blank) (s : Text) :
    trimLeft (pad ++ s) = trimLeft s :=
  List.dropWhile_append_of_pos fun _ hc => hpad.of_mem hc

/-- A search that starts at another offset finds the same place. -/
theorem findFrom_shift (pat s : Text) (i : Nat) :
    findFrom pat i s = (findFrom pat 0 s).map (i + ·) := by
  induction s generalizing i with
  | nil =>
    rw [findFrom, findFrom]
    split <;> rfl
  | cons c s ih =>
    rw [findFrom, findFrom]
    split
    · rfl
    · rw [ih (i + 1), ih (0 + 1), Option.map_map]
      congr 1
      funext n
      simp only [Function.comp_apply]
      omega

end Text

/-- A character with which no closing tag begins may be left out. -/
theorem closesAtEnd_cons {c : Char} {s : Text} (h : ¬ "?>".toList <+: c :: s) :
    closesAtEnd (c :: s) = closesAtEnd s := by
  have hthrough : Text.through? "?>".toList (c :: s) =
      (Text.through? "?>".toList s).map (1 + ·) := by
    rw [Text.through?, Text.through?, Text.find?, Text.findFrom,
      if_neg fun hpre => h (List.isPrefixOf_iff_prefix.mp hpre), Text.findFrom_shift, Text.find?,
      Option.map_map, Option.map_map]
    rfl
  unfold closesAtEnd
  rw [hthrough]
  cases Text.through? "?>".toList s with
  | none => rfl
  | some n => simp only [Option.map_some, Nat.add_comm 1 n, List.drop_succ_cons]

/-- White space in front does not matter for where the code is closed. -/
theorem closesAtEnd_append {pad : Text} (hpad : pad.Blank) (s : Text) :
    closesAtEnd (pad ++ s) = closesAtEnd s := by
  induction pad with
  | nil => rfl
  | cons c pad ih =>
    obtain ⟨hc, hpad⟩ := Text.blank_cons.mp hpad
    rw [List.cons_append, closesAtEnd_cons, ih hpad]
    intro hpre
    obtain rfl : '?' = c := (List.cons_prefix_cons.mp hpre).1
    exact absurd hc (by decide)

/-- What follows a closing tag is short. -/
theorem isShortTail_of_closesAtEnd {u v : Text} (h : closesAtEnd (u ++ "?>".toList ++ v) = true) :
    isShortTail v = true := by
  induction u with
  | nil => exact (Bool.and_eq_true_iff.mp h).2
  | cons c u ih =>
    by_cases hpre : ['?', '>'] <+: c :: (u ++ "?>".toList ++ v)
    · -- two closing tags do not overlap, so there would be another one behind the first
      obtain ⟨rfl, hnext⟩ := List.cons_prefix_cons.mp hpre
      cases u with
      | nil =>
        have hsecond : '>' = '?' := (List.cons_prefix_cons.mp hnext).1
        exact absurd hsecond (by decide)
      | cons d u =>
        obtain ⟨rfl, -⟩ := List.cons_prefix_cons.mp hnext
        have hnone : (!Text.occursIn "?>".toList (u ++ "?>".toList ++ v)) = true :=
          (Bool.and_eq_true_iff.mp h).1
        have hoccurs : Text.occursIn "?>".toList (u ++ "?>".toList ++ v) = true :=
          (Text.occursIn_iff _ _).mpr (List.infix_append ..)
        rw [hoccurs] at hnone
        cases hnone
    · exact ih (closesAtEnd_cons hpre ▸ h)

/-- What is short has no room for an opener. -/
theorem not_infix_of_isShortTail {v : Text} (h : isShortTail v = true) : ¬ "<?".toList <:+: v := by
  intro hinside
  have hlength := hinside.length_le
  rcases Bool.or_eq_true_iff.mp h with hshort | hbreak
  · have hone := of_decide_eq_true hshort
    exact absurd (Nat.le_trans hlength hone) (by decide)
  · rw [beq_iff_eq.mp hbreak] at hinside
    exact absurd (hinside.eq_of_length rfl) (by decide)

/-! ## The test -/

/-- A template of one code segment is white space, an opening tag, and what follows it. -/
theorem exists_of_isWholeCodeBlock {s : Text} (h : isWholeCodeBlock s = true) :
    ∃ pad body n, s = pad ++ body ∧ pad.Blank ∧ openTag body = some n ∧
      (Text.search? openTag (body.drop n)).isNone = true ∧ closesAtEnd body = true := by
  unfold isWholeCodeBlock at h
  split at h
  · cases h
  · rename_i i n hsearch
    rw [Bool.and_eq_true, Bool.and_eq_true] at h
    obtain ⟨⟨honly, hblank⟩, hcloses⟩ := h
    have hcut := List.take_append_drop i s
    refine ⟨s.take i, s.drop i, n, hcut.symm, hblank, Text.search?_spec hsearch, ?_, ?_⟩
    · rwa [List.drop_drop]
    · rwa [← hcut, closesAtEnd_append hblank] at hcloses

/-- An opening tag is where the white space ends. -/
theorem trimLeft_of_openTag {pad body : Text} {n : Nat} (hpad : pad.Blank)
    (hopen : openTag body = some n) : Text.trimLeft (pad ++ body) = body := by
  rw [Text.trimLeft_append hpad]
  refine Text.trimLeft_eq_self fun c hc => ?_
  rw [head_of_openTag hopen] at hc
  rw [← Option.some.inj hc]
  decide

/-- **A template of one code segment stays one** without the white space before it. -/
theorem isWholeCodeBlock_trimLeft {s : Text} (h : isWholeCodeBlock s = true) :
    isWholeCodeBlock (Text.trimLeft s) = true ∧
      Text.trimLeft (Text.trimLeft s) = Text.trimLeft s := by
  obtain ⟨pad, body, n, rfl, hpad, hopen, honly, hcloses⟩ := exists_of_isWholeCodeBlock h
  rw [trimLeft_of_openTag hpad hopen]
  constructor
  · have hfirst : Text.search? openTag body = some (0, n) := by
      obtain ⟨rest, rfl⟩ := List.head?_eq_some_iff.mp (head_of_openTag hopen)
      rw [Text.search?, Text.searchFrom, hopen]
    unfold isWholeCodeBlock
    rw [hfirst]
    simp only [Nat.zero_add, honly, hcloses, List.take_zero]
    rfl
  · -- what is left begins with the bracket of the tag
    rw [← List.nil_append body]
    exact trimLeft_of_openTag Text.blank_nil hopen

/-! ## The lexemes of the opening tag -/

namespace Php
open Recogniser

/-- Where a rule applies that yields one lexeme, that lexeme comes first. -/
theorem lex_of_applicable? {modes : List Mode} {c : Char} {cs : Text} {rule : Rule} {n : Nat}
    {kind : Lexeme.Class} (h : applicable? (rulesOf modes) (c :: cs) = some (rule, n))
    (hyields : rule.yields = .one kind) :
    lex modes (c :: cs) =
      ⟨kind, c :: cs.take (n - 1)⟩ :: lex (rule.move.apply modes) (cs.drop (n - 1)) := by
  rw [lex.eq_def]
  simp only [h, hyields]
  rfl

/-- In markup, what does not begin with a bracket is no opening tag. -/
theorem opener_eq_none {c : Char} (hc : c ≠ '<') (cs : Text) :
    firstOf [word "<?php", Text.literal "<?".toList] (c :: cs) = none := by
  have hword : word "<?php" (c :: cs) = none := by
    rw [word, Text.literalIgnoringCase, if_neg]
    intro hbegins
    have hsame : sameLetter '<' c = true := (Bool.and_eq_true_iff.mp hbegins).1
    exact hc (eq_of_toLower (by decide) (toLower_of_sameLetter (by decide) hsame))
  have hbare : Text.literal "<?".toList (c :: cs) = none := by
    rw [Text.literal, if_neg]
    intro hpre
    have hhead : ['<', '?'] <+: c :: cs := List.isPrefixOf_iff_prefix.mp hpre
    exact hc (List.cons_prefix_cons.mp hhead).1.symm
  rw [firstOf, List.findSome?_cons, hword, List.findSome?_cons, hbare, List.findSome?_nil]

/-- White space before a bracket is one lexeme. -/
theorem lex_blank_append {pad s : Text} (hpad : pad.Blank) (hne : pad ≠ [])
    (hs : s.head? = some '<') : lex [] (pad ++ s) = ⟨.plain, pad⟩ :: lex [] s := by
  obtain ⟨c, pad, rfl⟩ := List.exists_cons_of_ne_nil hne
  obtain ⟨rest, rfl⟩ := List.head?_eq_some_iff.mp hs
  -- of the rules of markup only the one for a row without brackets applies
  have hother : ∀ d ∈ c :: pad, d ≠ '<' := fun d hd => blank_ne (hpad.of_mem hd) (by decide)
  obtain ⟨hc, hpad'⟩ := List.forall_mem_cons.mp hother
  have hrow : Text.leading (· != '<') (pad ++ '<' :: rest) = pad.length := by
    rw [Text.leading_eq_length_takeWhile, List.takeWhile_append_of_pos fun d hd =>
      bne_iff_ne.mpr (hpad' d hd)]
    simp
  have happlies : applicable? (rulesOf []) (c :: (pad ++ '<' :: rest)) =
      some ({ recognise := many (· != '<') }, 1 + pad.length) := by
    have hmany : many (· != '<') (c :: (pad ++ '<' :: rest)) = some (1 + pad.length) := by
      rw [many, run, if_pos (bne_iff_ne.mpr hc), hrow]
    rw [rulesOf, markupRules, applicable?, List.findSome?_cons]
    simp only [opener_eq_none hc, Option.map_none, List.findSome?_cons, hmany, Option.map_some]
  rw [List.cons_append, lex_of_applicable? happlies rfl, Nat.add_sub_cancel_left, List.take_left,
    List.drop_left]
  rfl

/-- The longer opening tag is one lexeme, and leads into code. -/
theorem lex_word {s : Text} (h : Text.beginsIgnoringCase "<?php".toList s = true) :
    lex [] s = ⟨.delimiter, s.take 5⟩ :: lex [.code] (s.drop 5) := by
  cases s with
  | nil => cases h
  | cons c cs =>
    have hword : word "<?php" (c :: cs) = some 5 := if_pos h
    have happlies : applicable? (rulesOf []) (c :: cs) =
        some ({ recognise := firstOf [word "<?php", Text.literal "<?".toList],
                yields := .one .delimiter, move := .enter .code }, 5) := by
      rw [rulesOf, markupRules, applicable?, List.findSome?_cons]
      simp only [firstOf, List.findSome?_cons, hword, Option.map_some]
    exact lex_of_applicable? happlies rfl

/-- So is the bare opener before an equals sign. -/
theorem lex_echo (rest : Text) :
    lex [] ("<?=".toList ++ rest) = ⟨.delimiter, "<?".toList⟩ :: lex [.code] ('=' :: rest) := by
  have happlies : applicable? (rulesOf []) ('<' :: '?' :: '=' :: rest) =
      some ({ recognise := firstOf [word "<?php", Text.literal "<?".toList],
              yields := .one .delimiter, move := .enter .code }, 2) := rfl
  exact lex_of_applicable? happlies rfl

end Php

/-! ## The pieces -/

namespace Reading

/-- Behind a bare opener an equals sign is cut off, and all else is read in the segment. -/
theorem pieces_pending (shortTags : Bool) (opener : Text) {x : Lexeme} {more : Text}
    (hx : x.text = '=' :: more) (xs : List Lexeme) :
    pieces shortTags (.pending opener) (x :: xs) =
      ⟨.openTagWithEcho, opener ++ ['=']⟩ :: pieces shortTags .inside (⟨x.kind, more⟩ :: xs) := by
  rw [pieces_cons shortTags _ (by rw [hx]; exact List.cons_ne_nil _ _), step, stepPending, hx]
  cases more with
  | nil => rfl
  | cons c more => rfl

/-- **A template that begins with an opening tag.** The tag is its first piece, and what
follows is read in the segment. -/
theorem pieces_openTag (shortTags : Bool) {s : Text} {n : Nat} (h : openTag s = some n) :
    ∃ κ opener xs, κ.isOpen = true ∧ s = opener ++ xs.flatMap Lexeme.text ∧
      pieces shortTags .outside (Php.lex [] s) = ⟨κ, opener⟩ :: pieces shortTags .inside xs := by
  rcases openTag_cases h with ⟨rest, rfl⟩ | hword
  · -- the equals sign begins the next lexeme
    have htext := Php.lex_text [.code] ('=' :: rest)
    cases hxs : Php.lex [.code] ('=' :: rest) with
    | nil =>
      rw [hxs] at htext
      cases htext
    | cons x xs =>
      have hhead := Php.head?_lex (y := x) (by rw [hxs]; rfl)
      obtain ⟨more, hmore⟩ := List.head?_eq_some_iff.mp hhead
      rw [hxs, List.flatMap_cons, hmore] at htext
      refine ⟨.openTagWithEcho, "<?".toList ++ ['='], ⟨x.kind, more⟩ :: xs, rfl, ?_, ?_⟩
      · have hrest : more ++ xs.flatMap Lexeme.text = rest := (List.cons.inj htext).2
        rw [List.flatMap_cons, hrest]
        rfl
      · rw [Php.lex_echo, hxs, pieces_cons shortTags _ (by decide)]
        exact pieces_pending shortTags _ hmore xs
  · -- the tag is a lexeme of its own, and longer than the bare opener
    obtain ⟨word, rest, hs, hlength⟩ := exists_of_beginsIgnoringCase hword
    refine ⟨.openTag, s.take 5, Php.lex [.code] (s.drop 5), rfl, ?_, ?_⟩
    · rw [Php.lex_text, List.take_append_drop]
    · have htake : s.take 5 = '<' :: '?' :: word := by
        rw [hs, List.take_left' (by simp [hlength])]
      have hbare : ¬ '<' :: '?' :: word = "<?".toList := by
        intro heq
        simpa [hlength] using congrArg List.length heq
      rw [Php.lex_word hword, htake, pieces_cons shortTags _ (List.cons_ne_nil _ _), step,
        stepOutside]
      have hopen : Lexeme.isOpen ⟨.delimiter, '<' :: '?' :: word⟩ = true := rfl
      rw [if_pos hopen, if_neg hbare]
      rfl

/-- White space before an opening tag is a piece of its own. -/
theorem pieces_blank_append (shortTags : Bool) {pad s : Text} (hpad : pad.Blank) (hne : pad ≠ [])
    (hs : s.head? = some '<') :
    pieces shortTags .outside (Php.lex [] (pad ++ s)) =
      ⟨.inlineHtml, pad⟩ :: pieces shortTags .outside (Php.lex [] s) := by
  rw [Php.lex_blank_append hpad hne hs, pieces_cons shortTags _ hne]
  rfl

/-- What is short holds no opening tag. -/
theorem pieces_outside (shortTags : Bool) {xs : List Lexeme}
    (h : isShortTail (xs.flatMap Lexeme.text) = true) :
    ∀ p ∈ pieces shortTags .outside xs, p.kind = .inlineHtml := by
  have hnone : ∀ x ∈ xs, x.isOpen = false := by
    intro x hx
    rw [Bool.eq_false_iff]
    intro hopen
    have hpre : "<?".toList <+: x.text :=
      List.isPrefixOf_iff_prefix.mp (Bool.and_eq_true_iff.mp hopen).2
    obtain ⟨before, after, rfl⟩ := List.append_of_mem hx
    rw [List.flatMap_append, List.flatMap_cons] at h
    exact not_infix_of_isShortTail h (hpre.isInfix.trans (List.infix_append' ..))
  -- the short text has served its purpose, and the induction is over any lexemes
  clear h
  induction xs with
  | nil => exact List.forall_mem_nil _
  | cons x xs ih =>
    obtain ⟨hx, hrest⟩ := List.forall_mem_cons.mp hnone
    rw [pieces]
    split
    · exact ih hrest
    · rw [step, stepOutside, hx]
      exact List.forall_mem_cons.mpr ⟨rfl, ih hrest⟩

/-- **The pieces of a segment up to the end of the template.** Behind a closing tag stands
markup, and little of it. -/
theorem pieces_inside (shortTags : Bool) {xs : List Lexeme}
    (h : ∀ u v, xs.flatMap Lexeme.text = u ++ "?>".toList ++ v → isShortTail v = true) :
    ∃ inner rest, pieces shortTags .inside xs = inner ++ rest ∧
      (∀ p ∈ inner, p.kind.isInner = true) ∧
      (rest = [] ∨ ∃ markup, rest = ⟨.closeTag, "?>".toList⟩ :: markup ∧
        (∀ p ∈ markup, p.kind = .inlineHtml) ∧ isShortTail (markup.flatMap Piece.text) = true) := by
  induction xs with
  | nil => exact ⟨[], [], rfl, List.forall_mem_nil _, .inl rfl⟩
  | cons x xs ih =>
    by_cases hempty : x.text = []
    · rw [List.flatMap_cons, hempty, List.nil_append] at h
      rw [pieces, if_pos (List.isEmpty_iff.mpr hempty)]
      exact ih h
    · rw [pieces_cons shortTags _ hempty, step, stepInside]
      cases hclose : x.isClose with
      | true =>
        -- the lexeme is a `?>` of the template, so that what follows it is short
        have htext : x.text = "?>".toList := beq_iff_eq.mp (Bool.and_eq_true_iff.mp hclose).2
        have hshort : isShortTail (xs.flatMap Lexeme.text) = true :=
          h [] _ (by rw [List.flatMap_cons, htext]; rfl)
        refine ⟨[], _, rfl, List.forall_mem_nil _, .inr ⟨pieces shortTags .outside xs, ?_, ?_, ?_⟩⟩
        · rw [htext]
          rfl
        · exact pieces_outside shortTags hshort
        · rw [pieces_text]
          exact hshort
      | false =>
        -- a `?>` behind the lexeme is one of the whole text
        obtain ⟨inner, rest, hpieces, hinner, hrest⟩ := ih fun u v huv =>
          h (x.text ++ u) v (by rw [List.flatMap_cons, huv]; simp)
        refine ⟨⟨kindInside x.kind, x.text⟩ :: inner, rest, ?_, ?_, hrest⟩
        · exact congrArg (_ :: ·) hpieces
        · refine List.forall_mem_cons.mpr ⟨?_, hinner⟩
          cases x.kind <;> rfl

end Reading

/-! ## The joined pieces -/

namespace Piece

theorem join_cons (p : Piece) (ps : List Piece) : join (p :: ps) = cons p (join ps) := rfl

/-- Joining looks at the first of the pieces behind only. -/
theorem cons_append (p q : Piece) (ps rest : List Piece) :
    cons p (q :: ps ++ rest) = cons p (q :: ps) ++ rest := by
  rw [List.cons_append, cons, cons]
  split
  · rfl
  · split
    · rw [absorb, absorb]
      split <;> rfl
    · rfl

/-- A piece that differs in kind from the one behind it stays as it is, unless it is a
closing tag before markup. -/
theorem cons_of_kind_ne {p q : Piece} (hne : p.kind ≠ q.kind)
    (hclose : p.kind = .closeTag → q.kind ≠ .inlineHtml) (ps : List Piece) :
    cons p (q :: ps) = p :: q :: ps := by
  rw [cons, if_neg fun hsame => hne hsame.1, if_neg fun hclosing => hclose hclosing.1 hclosing.2]

/-- Opening tags are not joined to anything. -/
theorem cons_of_isOpen {p : Piece} (hp : p.kind.isOpen = true) (ps : List Piece) :
    cons p ps = p :: ps := by
  cases ps with
  | nil => rfl
  | cons q ps =>
    rw [cons, if_neg, if_neg]
    · rintro ⟨hclose, -⟩
      rw [hclose] at hp
      cases hp
    · rintro ⟨-, hmerge⟩
      cases hκ : p.kind <;> rw [hκ] at hp hmerge <;> cases hp <;> cases hmerge

/-- A token in a segment does not close it. -/
theorem ne_closeTag_of_isInner {κ : Token.Kind} (h : κ.isInner = true) : κ ≠ .closeTag := by
  rintro rfl
  cases h

/-- What lies in a segment stays there when it is joined. -/
theorem isInner_of_mem_join {ps : List Piece} (h : ∀ p ∈ ps, p.kind.isInner = true) :
    ∀ r ∈ join ps, r.kind.isInner = true := by
  induction ps with
  | nil => exact List.forall_mem_nil _
  | cons p ps ih =>
    obtain ⟨hp, hps⟩ := List.forall_mem_cons.mp h
    have hrest := ih hps
    rw [join_cons]
    cases hjoin : join ps with
    | nil => exact List.forall_mem_singleton.mpr hp
    | cons q qs =>
      rw [hjoin] at hrest
      rw [cons]
      split
      · exact List.forall_mem_cons.mpr ⟨hp, (List.forall_mem_cons.mp hrest).2⟩
      · rw [if_neg fun hclosing => ne_closeTag_of_isInner hp hclosing.1]
        exact List.forall_mem_cons.mpr ⟨hp, hrest⟩

/-- A segment is not joined to the closing tag behind it. -/
theorem join_append {ps rest : List Piece} (hps : ∀ p ∈ ps, p.kind.isInner = true)
    (hrest : ∀ q ∈ (join rest).head?, q.kind = .closeTag) :
    join (ps ++ rest) = join ps ++ join rest := by
  induction ps with
  | nil => rfl
  | cons p ps ih =>
    obtain ⟨hp, hps⟩ := List.forall_mem_cons.mp hps
    have hother := ne_closeTag_of_isInner hp
    rw [List.cons_append, join_cons, ih hps, join_cons]
    cases hjoin : join ps with
    | cons q qs => exact cons_append p q qs _
    | nil =>
      cases hbehind : join rest with
      | nil => rfl
      | cons q qs =>
        have hq : q.kind = .closeTag := hrest q (by rw [hbehind]; rfl)
        exact cons_of_kind_ne (hq.symm ▸ hother) (fun hclose => absurd hclose hother) qs

/-- Markup is joined to one piece. -/
theorem join_inline {ps : List Piece} (h : ∀ p ∈ ps, p.kind = .inlineHtml) (hne : ps ≠ []) :
    join ps = [⟨.inlineHtml, ps.flatMap Piece.text⟩] := by
  induction ps with
  | nil => exact absurd rfl hne
  | cons p ps ih =>
    obtain ⟨hp, hps⟩ := List.forall_mem_cons.mp h
    obtain ⟨κ, text⟩ := p
    obtain rfl : κ = .inlineHtml := hp
    cases ps with
    | nil => simp [join, cons]
    | cons q qs =>
      rw [join_cons, ih hps (List.cons_ne_nil q qs), cons, if_pos ⟨rfl, rfl⟩]
      rfl

/-- A short text behind a closing tag: the tag takes a line break, and one character at
most is left. -/
theorem drop_leadingBreak {v : Text} (h : isShortTail v = true) :
    v.drop (leadingBreak v) = [] ∨ ∃ c, v.drop (leadingBreak v) = [c] := by
  rcases Bool.or_eq_true_iff.mp h with hshort | hbreak
  · rcases Nat.le_one_iff_eq_zero_or_eq_one.mp (of_decide_eq_true hshort) with hnone | hone
    · rw [List.length_eq_zero_iff.mp hnone]
      exact .inl rfl
    · obtain ⟨c, rfl⟩ := List.length_eq_one_iff.mp hone
      cases hn : leadingBreak [c] with
      | zero => exact .inr ⟨c, rfl⟩
      | succ n => exact .inl (List.drop_nil)
  · rw [beq_iff_eq.mp hbreak]
    exact .inl rfl

/-- **A closing tag at the end of the template** takes the line break behind it, and at
most one character of markup is left. -/
theorem join_closing {markup : List Piece} (h : ∀ p ∈ markup, p.kind = .inlineHtml)
    (hshort : isShortTail (markup.flatMap Piece.text) = true) :
    ∃ close tail, join (⟨.closeTag, "?>".toList⟩ :: markup) = ⟨.closeTag, close⟩ :: tail ∧
      (tail = [] ∨ ∃ c, tail = [⟨.inlineHtml, [c]⟩]) := by
  by_cases hnil : markup = []
  · subst hnil
    exact ⟨_, [], rfl, .inl rfl⟩
  · have hother : Token.Kind.closeTag ≠ .inlineHtml := by decide
    rw [join_cons, join_inline h hnil, cons, if_neg fun hsame => hother hsame.1,
      if_pos ⟨rfl, rfl⟩, absorb]
    refine ⟨_, _, rfl, ?_⟩
    rcases drop_leadingBreak hshort with hdrop | ⟨c, hdrop⟩
    · left
      simp [hdrop]
    · exact .inr ⟨c, by simp [hdrop]⟩

/-- Offsets are counted through the first pieces, and on through those behind them. -/
theorem locate_append (start : Nat) (ps qs : List Piece) :
    locate start (ps ++ qs) =
      locate start ps ++ locate (start + (ps.flatMap Piece.text).length) qs := by
  induction ps generalizing start with
  | nil => rfl
  | cons p ps ih =>
    rw [List.cons_append, locate, locate, ih, List.flatMap_cons, List.length_append,
      Nat.add_assoc, List.cons_append]

/-- The last token ends where all the text does. -/
theorem getLast?_locate (start : Nat) (front : List Piece) (p : Piece) :
    ∃ t, (locate start (front ++ [p])).getLast? = some t ∧ t.kind = p.kind ∧
      t.stop = start + ((front ++ [p]).flatMap Piece.text).length := by
  refine ⟨⟨p.kind, p.text, start + (front.flatMap Piece.text).length⟩, ?_, rfl, ?_⟩
  · rw [locate_append]
    exact List.getLast?_concat
  · rw [Token.stop, List.flatMap_append, List.flatMap_singleton, List.length_append,
      Nat.add_assoc]

/-- The pieces of a segment, the last of which may be a closing tag. -/
theorem join_segment {inner rest : List Piece} (hinner : ∀ p ∈ inner, p.kind.isInner = true)
    (hrest : rest = [] ∨ ∃ markup, rest = ⟨.closeTag, "?>".toList⟩ :: markup ∧
      (∀ p ∈ markup, p.kind = .inlineHtml) ∧ isShortTail (markup.flatMap Piece.text) = true) :
    ∃ segment tail, join (inner ++ rest) = segment ++ tail ∧
      (∀ p ∈ segment, p.kind.isInner = true ∨ p.kind = .closeTag) ∧
      (tail = [] ∨ ∃ front close c, segment = front ++ [⟨.closeTag, close⟩] ∧
        tail = [⟨.inlineHtml, [c]⟩]) := by
  have hjoined : ∀ p ∈ join inner, p.kind.isInner = true ∨ p.kind = .closeTag :=
    fun p hp => .inl (isInner_of_mem_join hinner p hp)
  rcases hrest with rfl | ⟨markup, rfl, hmarkup, hshort⟩
  · exact ⟨join inner, [], by simp, hjoined, .inl rfl⟩
  · obtain ⟨close, tail, hjoin, htail⟩ := join_closing hmarkup hshort
    refine ⟨join inner ++ [⟨.closeTag, close⟩], tail, ?_, ?_, ?_⟩
    · rw [join_append hinner, hjoin, List.append_assoc]
      · rfl
      · rw [hjoin]
        rintro q hq
        obtain rfl := Option.some.inj hq
        rfl
    · exact List.forall_mem_append.mpr ⟨hjoined, List.forall_mem_singleton.mpr (.inr rfl)⟩
    · rcases htail with hnone | ⟨c, hc⟩
      · exact .inl hnone
      · exact .inr ⟨join inner, close, c, rfl, hc⟩

end Piece

/-! ## The result -/

/-- The white space before an opening tag, as a piece of markup. -/
def leadingMarkup (pad : Text) : List Piece :=
  if pad = [] then [] else [⟨.inlineHtml, pad⟩]

/-- The tokens of a template that is white space and one code segment. -/
theorem tokenize_openTag (shortTags : Bool) {pad body : Text} {n : Nat} (hpad : pad.Blank)
    (hopen : openTag body = some n) (hcloses : closesAtEnd body = true) :
    ∃ κ opener segment tail, κ.isOpen = true ∧
      (∀ p ∈ segment, p.kind.isInner = true ∨ p.kind = .closeTag) ∧
      (tail = [] ∨ ∃ front close c, segment = front ++ [⟨.closeTag, close⟩] ∧
        tail = [⟨.inlineHtml, [c]⟩]) ∧
      tokenize shortTags (pad ++ body) =
        Piece.locate 0 (leadingMarkup pad ++ ⟨κ, opener⟩ :: (segment ++ tail)) := by
  obtain ⟨κ, opener, xs, hκ, hbody, hpieces⟩ := Reading.pieces_openTag shortTags hopen
  -- a closing tag in what follows the opener is one of the whole text
  have hshort : ∀ u v, xs.flatMap Lexeme.text = u ++ "?>".toList ++ v → isShortTail v = true := by
    intro u v huv
    rw [hbody, huv, ← List.append_assoc, ← List.append_assoc] at hcloses
    exact isShortTail_of_closesAtEnd hcloses
  obtain ⟨inner, rest, hinside, hinner, hrest⟩ := Reading.pieces_inside shortTags hshort
  obtain ⟨segment, tail, hjoin, hsegment, htail⟩ := Piece.join_segment hinner hrest
  refine ⟨κ, opener, segment, tail, hκ, hsegment, htail, ?_⟩
  have hopener : Piece.join (Reading.pieces shortTags .outside (Php.lex [] body)) =
      ⟨κ, opener⟩ :: (segment ++ tail) := by
    rw [hpieces, hinside, Piece.join_cons, hjoin]
    exact Piece.cons_of_isOpen hκ _
  -- white space in front makes a piece of its own, which an opening tag is not joined to
  rw [tokenize, Php.lexemes, leadingMarkup]
  split
  · rename_i hnil
    rw [hnil, List.nil_append, hopener]
    rfl
  · rename_i hne
    rw [Reading.pieces_blank_append shortTags hpad hne (head_of_openTag hopen), Piece.join_cons,
      hopener, Piece.cons_of_kind_ne]
    · rfl
    · intro hsame
      rw [show κ = .inlineHtml from hsame.symm] at hκ
      cases hκ
    · intro hclose
      cases hclose

/-- The tokens of a template that is white space and one code segment, with their places. -/
theorem tokens_of_openTag (shortTags : Bool) {pad body : Text} {n : Nat} (hpad : pad.Blank)
    (hopen : openTag body = some n) (hcloses : closesAtEnd body = true) :
    ∃ lead opener segment tail,
      tokenize shortTags (pad ++ body) = lead ++ opener :: (segment ++ tail) ∧
      opener.kind.isOpen = true ∧ opener.start = pad.length ∧
      (∀ t ∈ lead ++ segment ++ tail, t.kind.isOpen = false) ∧
      (∀ t ∈ segment, t.kind ≠ .inlineHtml) ∧
      (lead = [] ∨ lead = [⟨.inlineHtml, pad, 0⟩]) ∧
      (tail = [] ∨ ∃ close c, segment.getLast? = some close ∧ close.kind = .closeTag ∧
        tail = [⟨.inlineHtml, [c], close.stop⟩]) := by
  obtain ⟨κ, opener, segment, tail, hκ, hsegment, htail, htokens⟩ :=
    tokenize_openTag shortTags hpad hopen hcloses
  have hlead : Piece.locate 0 (leadingMarkup pad) = [] ∨
      Piece.locate 0 (leadingMarkup pad) = [⟨.inlineHtml, pad, 0⟩] := by
    rw [leadingMarkup]
    split
    · exact .inl rfl
    · exact .inr rfl
  have hstart : ((leadingMarkup pad).flatMap Piece.text).length = pad.length := by
    rw [leadingMarkup]
    split
    · rename_i hnil
      rw [hnil]
      rfl
    · simp
  -- what the pieces are, their tokens are
  have hinside : ∀ start, ∀ t ∈ Piece.locate start segment,
      t.kind.isOpen = false ∧ t.kind ≠ .inlineHtml := by
    intro start t ht
    obtain ⟨p, hp, hkind, -⟩ := Piece.exists_of_mem_locate ht
    rw [hkind]
    rcases hsegment p hp with hinner | hclose
    · revert hinner
      cases p.kind <;> decide
    · rw [hclose]
      decide
  have hmarkup : ∀ start, ∀ t ∈ Piece.locate start tail, t.kind.isOpen = false := by
    intro start t ht
    rcases htail with rfl | ⟨front, close, c, -, rfl⟩
    · cases ht
    · obtain rfl := List.mem_singleton.mp ht
      rfl
  -- the tokens are the pieces with their places, in the same four groups
  rw [Piece.locate_append, Piece.locate, Piece.locate_append, Nat.zero_add, hstart] at htokens
  refine ⟨_, _, _, _, htokens, hκ, rfl, ?_, fun t ht => (hinside _ t ht).2, hlead, ?_⟩
  · refine List.forall_mem_append.mpr ⟨List.forall_mem_append.mpr ⟨?_, fun t ht =>
      (hinside _ t ht).1⟩, hmarkup _⟩
    rcases hlead with hnone | hpadding
    · rw [hnone]
      exact List.forall_mem_nil _
    · rw [hpadding]
      exact List.forall_mem_singleton.mpr rfl
  · rcases htail with rfl | ⟨front, close, c, rfl, rfl⟩
    · exact .inl rfl
    · obtain ⟨last, hlast, hkind, hstop⟩ := Piece.getLast?_locate _ front ⟨.closeTag, close⟩
      refine .inr ⟨last, c, hlast, hkind, ?_⟩
      rw [Piece.locate, Piece.locate, hstop]

/-- **Where nothing is laid out there is no markup.** A template that passes for one code
segment has one opening tag, at its first character that is no white space. Its markup is
the white space before the tag and at most one character behind a closing tag. It is left
as it is from the opening tag on, whatever the formatter and its options, and what is left
is one code segment again and stays as it is. -/
theorem wholeCodeBlock_skips_no_markup (s : Text) (h : isWholeCodeBlock s = true) :
    let i := Text.blanks s
    (∀ shortTags, ∃ lead opener segment tail,
      tokenize shortTags s = lead ++ opener :: (segment ++ tail) ∧
      opener.kind.isOpen = true ∧ opener.start = i ∧
      (∀ t ∈ lead ++ segment ++ tail, t.kind.isOpen = false) ∧
      (∀ t ∈ segment, t.kind ≠ .inlineHtml) ∧
      (lead = [] ∨ lead = [⟨.inlineHtml, s.take i, 0⟩]) ∧
      (tail = [] ∨ ∃ close c, segment.getLast? = some close ∧ close.kind = .closeTag ∧
        tail = [⟨.inlineHtml, [c], close.stop⟩])) ∧
    (∃ c, s[i]? = some c ∧ isBlank c = false) ∧ Text.Blank (s.take i) ∧
    isWholeCodeBlock (s.drop i) = true ∧
    ∀ format draws draw o shortTags,
      (beautifyWith format draws draw o shortTags s).result = .ok (s.drop i) ∧
      (beautifyWith format draws draw o shortTags (s.drop i)).result = .ok (s.drop i) := by
  intro i
  obtain ⟨hagain, htwice⟩ := isWholeCodeBlock_trimLeft h
  obtain ⟨pad, body, n, rfl, hpad, hopen, -, hcloses⟩ := exists_of_isWholeCodeBlock h
  have htrim : Text.trimLeft (pad ++ body) = body := trimLeft_of_openTag hpad hopen
  obtain ⟨rest, hrest⟩ := List.head?_eq_some_iff.mp (head_of_openTag hopen)
  have hi : i = pad.length := by
    simp only [i]
    rw [Text.blanks, Text.leading_eq_length_takeWhile,
      List.takeWhile_append_of_pos fun c hc => hpad.of_mem hc, hrest,
      List.takeWhile_cons_of_neg (by decide), List.append_nil]
  rw [htrim] at hagain htwice
  rw [hi, List.drop_left, List.take_left]
  refine ⟨fun shortTags => tokens_of_openTag shortTags hpad hopen hcloses,
    ⟨'<', ?_, by decide⟩, hpad, hagain, fun format draws draw o shortTags => ⟨?_, ?_⟩⟩
  · rw [List.getElem?_append_right (Nat.le_refl _), Nat.sub_self, hrest]
    rfl
  · rw [beautifyWith, if_pos h, htrim]
  · rw [beautifyWith, if_pos hagain, htwice]

/-- The closing tag stands in a string, in an interpolation that is never closed. -/
theorem wholeCodeBlock_skips_no_markup_string :
    let s := " \n<?= \"{$a ?>}".toList
    isWholeCodeBlock s = true ∧
      (beautify Draws.counter 0 (.ofRecord []) false s).result = .ok (s.drop 2) ∧
      isWholeCodeBlock (s.drop 2) = true := by
  intro s
  have hwhole : isWholeCodeBlock s = true := by decide +kernel
  have hblanks : Text.blanks s = 2 := by decide
  have hskips := wholeCodeBlock_skips_no_markup s hwhole
  dsimp only at hskips
  rw [hblanks] at hskips
  obtain ⟨-, -, -, hagain, hresult⟩ := hskips
  exact ⟨hwhole, (hresult _ _ _ _ _).1, hagain⟩

end TemplateTidy
