import Mathlib.Algebra.GroupWithZero.Nat
import TemplateTidy.Token.Stream

/-!
# The tokens divide the template

Nothing of a template is lost, repeated or moved on its way into tokens. The
argument follows the three steps of the tokenizer:

* the lexer takes at least one character and hands on the rest, also where an
  interpolation is lexed afresh (`lexemes_text`);
* the reader of lexemes may hold back a bare opener and cut an equals sign off
  the lexeme after it; what it holds back is counted as its `held` text
  (`pieces_text`);
* joining neighbours and moving a line break into a closing tag keep the
  characters in place, and no piece becomes empty (`join_text`,
  `join_nonempty`).

Main result: `tokenize_partition`.
-/

namespace TemplateTidy

/-! ## Lexemes -/

namespace Php

/-- The lexemes of a text, put together, are the text, whatever the stack of
modes. -/
theorem lex_text (modes : List Mode) (s : Text) :
    (lex modes s).flatMap (·.text) = s := by
  fun_induction lex modes s with
  | case1 => rfl
  | case2 modes c cs rule n hrule body lexemes ih₁ ih₂ =>
    have hbody : (lexemes.flatMap (·.text)) = c :: body := by
      simp only [lexemes]
      split
      · simp
      · -- the interpolation: its head, the code in it, its tail
        rename_i head tail _
        rw [List.flatMap_cons, List.flatMap_append, ih₁ head tail]
        simp only [List.flatMap_cons, List.flatMap_nil, List.append_nil, List.cons_append,
          List.take_append_drop]
    rw [List.flatMap_append, hbody, ih₂]
    simp [body]
  | case3 c cs below hnone ih => exact ih
  | case4 cs modes hmodes hnone ih => simp [ih]
  | case5 c cs modes hmodes hnone hc ih => simp [ih]

/-- **The lexemes are the text.** -/
theorem lexemes_text (s : Text) : (lexemes s).flatMap (·.text) = s :=
  lex_text [] s

end Php

/-! ## Pieces -/

namespace Reading

/-- What the reader has taken and not yet handed on. -/
def held : Reading → Text
  | .pending opener => opener
  | _ => []

/-- A step outside of segments hands on its lexeme, or holds it back. -/
theorem stepOutside_text (x : Lexeme) :
    (stepOutside x).1.flatMap (·.text) ++ (stepOutside x).2.held = x.text := by
  unfold stepOutside
  split
  · split <;> simp [held]
  · simp [held]

/-- A step in markup that looks like a segment hands on its lexeme. -/
theorem stepLiteral_text (x : Lexeme) :
    (stepLiteral x).1.flatMap (·.text) ++ (stepLiteral x).2.held = x.text := by
  unfold stepLiteral
  cases x.isClose <;> simp [held]

/-- A step inside a segment hands on its lexeme. -/
theorem stepInside_text (x : Lexeme) :
    (stepInside x).1.flatMap (·.text) ++ (stepInside x).2.held = x.text := by
  unfold stepInside
  split <;> simp [held]

/-- The step that judges an opener hands on that and its lexeme. -/
theorem stepPending_text (shortTags : Bool) (opener : Text) (x : Lexeme) :
    (stepPending shortTags opener x).1.flatMap (·.text) ++
      (stepPending shortTags opener x).2.held = opener ++ x.text := by
  unfold stepPending
  split
  · rename_i hx
    simp [held, hx]
  · -- the equals sign goes to the opener, the rest is read as code
    rename_i more _ hx
    have hrest := stepInside_text ⟨x.kind, more⟩
    simp only [after, List.flatMap_cons, List.append_assoc, hrest, hx]
    simp
  · split
    · simp only [after, List.flatMap_cons, List.append_assoc, stepInside_text]
    · simp only [after, List.flatMap_cons, List.append_assoc, stepLiteral_text]

/-- One lexeme: what the reader hands on and what it holds back afterwards are
what it held before and the lexeme. -/
theorem step_text (shortTags : Bool) (r : Reading) (x : Lexeme) :
    (r.step shortTags x).1.flatMap (·.text) ++ (r.step shortTags x).2.held =
      r.held ++ x.text := by
  cases r with
  | outside => exact stepOutside_text x
  | pending opener => exact stepPending_text shortTags opener x
  | literal => exact stepLiteral_text x
  | inside => exact stepInside_text x

/-- At the end what was held back is handed on. -/
theorem atEnd_text (shortTags : Bool) (r : Reading) :
    (r.atEnd shortTags).flatMap (·.text) = r.held := by
  cases r <;> simp [atEnd, held]

/-- All lexemes: the pieces, put together, are what was held back and the
lexemes. -/
theorem pieces_text (shortTags : Bool) (r : Reading) (xs : List Lexeme) :
    (pieces shortTags r xs).flatMap (·.text) = r.held ++ xs.flatMap (·.text) := by
  induction xs generalizing r with
  | nil => simp [pieces, atEnd_text]
  | cons x xs ih =>
    rw [pieces]
    split
    · rename_i hx
      rw [ih, List.flatMap_cons, List.isEmpty_iff.mp hx, List.nil_append]
    · have hstep := step_text shortTags r x
      rw [List.flatMap_append, ih, ← List.append_assoc, hstep, List.flatMap_cons,
        List.append_assoc]

/-- What the reader holds back, if anything, is not empty. -/
def HoldsText (r : Reading) : Prop :=
  ∀ opener, r = .pending opener → opener ≠ []

/-- One lexeme that is not empty yields pieces that are not empty. -/
theorem step_nonempty (shortTags : Bool) {r : Reading} {x : Lexeme} (hr : r.HoldsText)
    (hx : x.text ≠ []) :
    (∀ p ∈ (r.step shortTags x).1, p.text ≠ []) ∧ (r.step shortTags x).2.HoldsText := by
  have hinside : ∀ y : Lexeme, y.text ≠ [] →
      (∀ p ∈ (stepInside y).1, p.text ≠ []) ∧ (stepInside y).2.HoldsText := by
    intro y hy
    unfold stepInside HoldsText
    split <;> simp [hy]
  have hliteral : (∀ p ∈ (stepLiteral x).1, p.text ≠ []) ∧ (stepLiteral x).2.HoldsText := by
    unfold stepLiteral HoldsText
    cases x.isClose <;> simp [hx]
  cases r with
  | outside =>
    simp only [step, stepOutside, HoldsText]
    split
    · split <;> simp_all
    · simp [hx]
  | pending opener =>
    have hopener : opener ≠ [] := hr opener rfl
    simp only [step, stepPending]
    split
    · simp [HoldsText]
    · -- the opener takes the equals sign, and what is left of the lexeme is read as code
      rename_i more hne hmore
      have hrest := hinside ⟨x.kind, more⟩ hne
      exact ⟨by simpa [after] using hrest.1, hrest.2⟩
    · split
      · have hrest := hinside x hx
        exact ⟨by simpa [after, hopener] using hrest.1, hrest.2⟩
      · exact ⟨by simpa [after, hopener] using hliteral.1, hliteral.2⟩
  | literal => exact hliteral
  | inside => exact hinside x hx

/-- No piece is empty. -/
theorem pieces_nonempty (shortTags : Bool) {r : Reading} (hr : r.HoldsText) (xs : List Lexeme) :
    ∀ p ∈ pieces shortTags r xs, p.text ≠ [] := by
  induction xs generalizing r with
  | nil =>
    cases r with
    | pending opener => simpa [pieces, atEnd] using hr opener rfl
    | outside | literal | inside => simp [pieces, atEnd]
  | cons x xs ih =>
    rw [pieces]
    split
    · exact ih hr
    · rename_i hx
      obtain ⟨hhead, hnext⟩ := step_nonempty shortTags hr (x := x) (by simpa using hx)
      intro p hp
      rcases List.mem_append.mp hp with hp | hp
      · exact hhead p hp
      · exact ih hnext p hp

end Reading

/-! ## Joined pieces -/

namespace Piece

/-- Joining neighbours and moving a line break keep the characters in place. -/
theorem cons_text (p : Piece) (ps : List Piece) :
    (cons p ps).flatMap (·.text) = p.text ++ ps.flatMap (·.text) := by
  cases ps with
  | nil => rfl
  | cons q rest =>
    rw [cons]
    split
    · simp
    · split
      · rw [absorb]
        have hcut := List.take_append_drop (leadingBreak q.text) q.text
        -- an empty remainder leaves no piece behind, and no characters either
        split
        · rename_i hempty
          rw [List.isEmpty_iff.mp hempty, List.append_nil] at hcut
          simp [hcut]
        · rw [List.flatMap_cons, List.flatMap_cons, List.append_assoc, ← List.append_assoc _ _
            (List.flatMap _ rest), hcut, List.flatMap_cons]
      · simp

/-- Joining pieces keeps their text. -/
theorem join_text (ps : List Piece) :
    (join ps).flatMap (·.text) = ps.flatMap (·.text) := by
  induction ps with
  | nil => rfl
  | cons p ps ih =>
    rw [show join (p :: ps) = cons p (join ps) from rfl, cons_text, ih, List.flatMap_cons]

/-- A piece that is joined to others makes no empty ones. -/
theorem cons_nonempty {p : Piece} {ps : List Piece} (hp : p.text ≠ [])
    (hps : ∀ q ∈ ps, q.text ≠ []) : ∀ q ∈ cons p ps, q.text ≠ [] := by
  cases ps with
  | nil => simpa [cons] using hp
  | cons q rest =>
    have hrest : ∀ r ∈ rest, r.text ≠ [] := fun r hr => hps r (List.mem_cons_of_mem _ hr)
    rw [cons]
    split
    · simpa [hp] using hrest
    · split
      · rw [absorb]
        split
        · simpa [hp] using hrest
        · rename_i hremains
          simpa [hp, List.isEmpty_iff] using ⟨by simpa using hremains, hrest⟩
      · simpa [hp] using hps

/-- Joined pieces are not empty if the pieces are not. -/
theorem join_nonempty {ps : List Piece} (hps : ∀ p ∈ ps, p.text ≠ []) :
    ∀ p ∈ join ps, p.text ≠ [] := by
  induction ps with
  | nil => exact hps
  | cons p ps ih =>
    exact cons_nonempty (hps p (List.mem_cons_self ..))
      (ih fun q hq => hps q (List.mem_cons_of_mem _ hq))

/-! ## Offsets -/

/-- Offsets leave the text alone. -/
theorem locate_text (start : Nat) (ps : List Piece) :
    (locate start ps).flatMap (·.text) = ps.flatMap (·.text) := by
  induction ps generalizing start with
  | nil => rfl
  | cons p ps ih => simp [locate, ih]

/-- Every token is a piece with its offset. -/
theorem exists_of_mem_locate {start : Nat} {ps : List Piece} {t : Token}
    (ht : t ∈ locate start ps) : ∃ p ∈ ps, t.kind = p.kind ∧ t.text = p.text := by
  induction ps generalizing start with
  | nil => simp [locate] at ht
  | cons p ps ih =>
    rw [locate] at ht
    rcases List.mem_cons.mp ht with rfl | ht
    · exact ⟨p, List.mem_cons_self .., rfl, rfl⟩
    · obtain ⟨q, hq, hkind⟩ := ih ht
      exact ⟨q, List.mem_cons_of_mem _ hq, hkind⟩

/-- Every token starts where those before it end. -/
theorem start_of_locate {start : Nat} {ps : List Piece} {before after : List Token} {t : Token}
    (h : locate start ps = before ++ t :: after) :
    t.start = start + (before.map (·.text.length)).sum := by
  induction ps generalizing start before with
  | nil => simp [locate] at h
  | cons p ps ih =>
    rw [locate] at h
    cases before with
    | nil =>
      obtain ⟨rfl, -⟩ := List.cons.inj h
      simp
    | cons b before =>
      obtain ⟨rfl, hrest⟩ := List.cons.inj h
      rw [ih hrest, List.map_cons, List.sum_cons, Nat.add_assoc]

end Piece

/-! ## Tokens -/

/-- No character of the template is lost or invented. -/
theorem tokenize_text (shortTags : Bool) (s : Text) :
    (tokenize shortTags s).flatMap (·.text) = s := by
  rw [tokenize, Piece.locate_text, Piece.join_text, Reading.pieces_text, Php.lexemes_text]
  rfl

/-- **Partition law.** The tokens of a template, put together, are the template;
none of them is empty; and every token starts at the summed length of the
tokens before it. -/
theorem tokenize_partition (shortTags : Bool) (s : Text) :
    (tokenize shortTags s).flatMap (·.text) = s ∧
      (∀ t ∈ tokenize shortTags s, t.text ≠ []) ∧
      ∀ before t after, tokenize shortTags s = before ++ t :: after →
        t.start = (before.map (·.text.length)).sum := by
  refine ⟨tokenize_text shortTags s, ?_, ?_⟩
  · intro t ht
    obtain ⟨p, hp, -, htext⟩ := Piece.exists_of_mem_locate ht
    rw [htext]
    exact Piece.join_nonempty (Reading.pieces_nonempty shortTags (by simp [Reading.HoldsText]) _)
      p hp
  · intro before t after h
    rw [Piece.start_of_locate h, Nat.zero_add]

end TemplateTidy
