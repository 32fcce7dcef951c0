import TemplateTidy.Proofs.Token.Partition

/-!
# The grammar of the token stream

The kinds of the tokens are a run of a machine with two states. Outside of a
segment stand markup and opening tags, an opening tag leads inside; inside stand
code, comments and the rest, and a closing tag leads outside.

The reader of lexemes has four states, of which only one lies inside a segment:
a bare opener that is still to be judged, and a run that only looks like a
segment, lie outside. Joining neighbours keeps the run, because a kind whose
neighbours are joined does not change the state.

Main results: `tokenize_run`, `closeTag_text`, `openTag_text`.
-/

namespace TemplateTidy

/-! ## The machine -/

namespace Token.Kind

/-- Whether a segment is open after a token of this kind, if the token may stand
in the present state. -/
def advance : Bool → Token.Kind → Option Bool
  | false, inlineHtml => some false
  | false, openTag | false, openTagWithEcho => some true
  | true, code | true, comment | true, other => some true
  | true, closeTag => some false
  | _, _ => none

/-- Whether a segment is open after tokens of these kinds, if they may stand one
after the other. -/
def run (inside : Bool) : List Token.Kind → Option Bool
  | [] => some inside
  | κ :: κs =>
    match advance inside κ with
    | some next => run next κs
    | none => none

/-- The kinds of tokens are run through one by one. -/
theorem run_cons (inside : Bool) (κ : Token.Kind) (κs : List Token.Kind) :
    run inside (κ :: κs) = (advance inside κ).bind (run · κs) := by
  rw [run]
  cases advance inside κ <;> rfl

/-- They may be run through in two parts. -/
theorem run_append (inside : Bool) (κs κs' : List Token.Kind) :
    run inside (κs ++ κs') = (run inside κs).bind (run · κs') := by
  induction κs generalizing inside with
  | nil => rfl
  | cons κ κs ih =>
    rw [List.cons_append, run_cons, run_cons, Option.bind_assoc]
    exact Option.bind_congr fun next _ => ih next

/-- A kind whose neighbours are joined does not change the state. -/
theorem eq_of_advance {κ : Token.Kind} (hκ : κ.isMergeable = true) {inside next : Bool}
    (h : advance inside κ = some next) : next = inside := by
  cases inside <;> cases κ <;> simp_all [advance, isMergeable]

end Token.Kind

open Token (Kind)

/-! ## The reader of lexemes -/

namespace Reading

/-- The reader stands in a segment. -/
def isInside : Reading → Bool
  | .inside => true
  | _ => false

/-- The kinds of a sequence of pieces. -/
def kinds (ps : List Piece) : List Kind :=
  ps.map (·.kind)

/-- A step outside of segments obeys the grammar. -/
theorem run_stepOutside (x : Lexeme) :
    Kind.run false (kinds (stepOutside x).1) = some (stepOutside x).2.isInside := by
  unfold stepOutside
  split
  · split <;> rfl
  · rfl

/-- So does a step in markup that looks like a segment. -/
theorem run_stepLiteral (x : Lexeme) :
    Kind.run false (kinds (stepLiteral x).1) = some (stepLiteral x).2.isInside := by
  unfold stepLiteral
  cases x.isClose <;> rfl

/-- So does a step inside a segment. -/
theorem run_stepInside (x : Lexeme) :
    Kind.run true (kinds (stepInside x).1) = some (stepInside x).2.isInside := by
  unfold stepInside
  split
  · rfl
  · cases x.kind <;> rfl

/-- So does the step that judges an opener. -/
theorem run_stepPending (shortTags : Bool) (opener : Text) (x : Lexeme) :
    Kind.run false (kinds (stepPending shortTags opener x).1) =
      some (stepPending shortTags opener x).2.isInside := by
  unfold stepPending
  split
  · rfl
  · rename_i more _ _
    exact run_stepInside ⟨x.kind, more⟩
  · split
    · exact run_stepInside x
    · exact run_stepLiteral x

/-- One lexeme: the pieces it yields lead from the state before it to the state
after it. -/
theorem run_step (shortTags : Bool) (r : Reading) (x : Lexeme) :
    Kind.run r.isInside (kinds (r.step shortTags x).1) =
      some (r.step shortTags x).2.isInside := by
  cases r with
  | outside => exact run_stepOutside x
  | pending opener => exact run_stepPending shortTags opener x
  | literal => exact run_stepLiteral x
  | inside => exact run_stepInside x

/-- So does the end of the text. -/
theorem run_atEnd (shortTags : Bool) (r : Reading) :
    ∃ inside, Kind.run r.isInside (kinds (r.atEnd shortTags)) = some inside := by
  cases r with
  | pending opener => cases shortTags <;> exact ⟨_, rfl⟩
  | outside | literal | inside => exact ⟨_, rfl⟩

/-- All lexemes: the pieces form a run of the machine. -/
theorem run_pieces (shortTags : Bool) (r : Reading) (xs : List Lexeme) :
    ∃ inside, Kind.run r.isInside (kinds (pieces shortTags r xs)) = some inside := by
  induction xs generalizing r with
  | nil => exact run_atEnd shortTags r
  | cons x xs ih =>
    rw [pieces]
    split
    · exact ih r
    · obtain ⟨inside, hrest⟩ := ih (r.step shortTags x).2
      refine ⟨inside, ?_⟩
      rw [kinds, List.map_append, Kind.run_append]
      exact (congrArg (Option.bind · _) (run_step shortTags r x)).trans hrest

end Reading

/-- The tags of segments as they are read: the text of a piece fits its kind. -/
structure Piece.Bare (p : Piece) : Prop where
  closes : p.kind = .closeTag → p.text = "?>".toList
  opens : p.kind.isOpen = true → "<?".toList <+: p.text

namespace Piece.Bare

/-- A piece that opens a segment is bare if its text begins like an opening tag. -/
theorem of_opener {κ : Kind} {s : Text} (hκ : κ ≠ .closeTag) (hs : "<?".toList <+: s) :
    Piece.Bare ⟨κ, s⟩ where
  closes h := absurd h hκ
  opens _ := hs

/-- A piece that is no tag is bare. -/
theorem of_other {κ : Kind} {s : Text} (hclose : κ ≠ .closeTag) (hopen : κ.isOpen = false) :
    Piece.Bare ⟨κ, s⟩ where
  closes h := absurd h hclose
  opens h := by
    rw [show κ.isOpen = true from h] at hopen
    exact Bool.noConfusion hopen

end Piece.Bare

namespace Reading

/-- What the reader holds back is a bare opener. -/
def HoldsOpener (r : Reading) : Prop :=
  ∀ opener, r = .pending opener → opener = "<?".toList

/-- A step outside of segments yields bare pieces, and holds back a bare opener at most. -/
theorem bare_stepOutside (x : Lexeme) :
    (∀ p ∈ (stepOutside x).1, p.Bare) ∧ (stepOutside x).2.HoldsOpener := by
  unfold stepOutside
  split
  · rename_i hopen
    have hpre := List.isPrefixOf_iff_prefix.mp (Bool.and_eq_true_iff.mp hopen).2
    split
    · rename_i hbare
      refine ⟨by simp, fun opener heq => ?_⟩
      rw [← Reading.pending.inj heq, hbare]
    · refine ⟨List.forall_mem_singleton.mpr ?_, by simp [HoldsOpener]⟩
      exact .of_opener (by decide) hpre
  · refine ⟨List.forall_mem_singleton.mpr ?_, by simp [HoldsOpener]⟩
    exact .of_other (by decide) rfl

/-- So does a step in markup that looks like a segment. -/
theorem bare_stepLiteral (x : Lexeme) :
    (∀ p ∈ (stepLiteral x).1, p.Bare) ∧ (stepLiteral x).2.HoldsOpener := by
  refine ⟨List.forall_mem_singleton.mpr (.of_other (by decide) rfl), ?_⟩
  unfold stepLiteral HoldsOpener
  cases x.isClose <;> simp

/-- So does a step inside a segment. -/
theorem bare_stepInside (x : Lexeme) :
    (∀ p ∈ (stepInside x).1, p.Bare) ∧ (stepInside x).2.HoldsOpener := by
  unfold stepInside
  split
  · rename_i hclose
    refine ⟨List.forall_mem_singleton.mpr ⟨fun _ => ?_, Bool.noConfusion⟩, by simp [HoldsOpener]⟩
    exact beq_iff_eq.mp (Bool.and_eq_true_iff.mp hclose).2
  · refine ⟨List.forall_mem_singleton.mpr ?_, by simp [HoldsOpener]⟩
    cases x.kind <;> exact .of_other (by decide) rfl

/-- A bare piece in front of what a step yields. -/
theorem bare_after {p : Piece} (hp : p.Bare) {y : List Piece × Reading}
    (hy : (∀ q ∈ y.1, q.Bare) ∧ y.2.HoldsOpener) :
    (∀ q ∈ (after p y).1, q.Bare) ∧ (after p y).2.HoldsOpener :=
  ⟨List.forall_mem_cons.mpr ⟨hp, hy.1⟩, hy.2⟩

/-- So does the step that judges an opener. -/
theorem bare_stepPending (shortTags : Bool) (x : Lexeme) :
    (∀ p ∈ (stepPending shortTags "<?".toList x).1, p.Bare) ∧
      (stepPending shortTags "<?".toList x).2.HoldsOpener := by
  unfold stepPending
  split
  · refine ⟨List.forall_mem_singleton.mpr ?_, by simp [HoldsOpener]⟩
    exact .of_opener (by decide) (List.prefix_append ..)
  · exact bare_after (.of_opener (by decide) (List.prefix_append ..)) (bare_stepInside _)
  · split
    · exact bare_after (.of_opener (by decide) List.prefix_rfl) (bare_stepInside x)
    · -- the opener is markup after all
      exact bare_after (.of_other (by decide) rfl) (bare_stepLiteral x)

/-- One lexeme: its pieces are bare, and what is held back is an opener. -/
theorem bare_step (shortTags : Bool) {r : Reading} (hr : r.HoldsOpener) (x : Lexeme) :
    (∀ p ∈ (r.step shortTags x).1, p.Bare) ∧ (r.step shortTags x).2.HoldsOpener := by
  cases r with
  | outside => exact bare_stepOutside x
  | pending opener =>
    obtain rfl := hr opener rfl
    exact bare_stepPending shortTags x
  | literal => exact bare_stepLiteral x
  | inside => exact bare_stepInside x

/-- What is left at the end is bare. -/
theorem bare_atEnd {shortTags : Bool} {r : Reading} (hr : r.HoldsOpener) :
    ∀ p ∈ r.atEnd shortTags, p.Bare := by
  cases r with
  | pending opener =>
    obtain rfl := hr opener rfl
    rw [atEnd, List.forall_mem_singleton]
    cases shortTags with
    | false => exact .of_other (by decide) rfl
    | true => exact .of_opener (by decide) List.prefix_rfl
  | outside | literal | inside => exact List.forall_mem_nil _

/-- All lexemes. -/
theorem bare_pieces {shortTags : Bool} {r : Reading} (hr : r.HoldsOpener) (xs : List Lexeme) :
    ∀ p ∈ pieces shortTags r xs, p.Bare := by
  induction xs generalizing r with
  | nil => exact bare_atEnd hr
  | cons x xs ih =>
    rw [pieces]
    split
    · exact ih hr
    · obtain ⟨hpieces, hnext⟩ := bare_step shortTags hr x
      exact List.forall_mem_append.mpr ⟨hpieces, ih hnext⟩

end Reading

/-! ## Joined pieces -/

namespace Piece

open Reading (kinds)

/-- Joining keeps the run. -/
theorem run_cons {p : Piece} {ps : List Piece} {inside final : Bool}
    (h : Kind.run inside (kinds (p :: ps)) = some final) :
    Kind.run inside (kinds (cons p ps)) = some final := by
  cases ps with
  | nil => exact h
  | cons q rest =>
    rw [cons]
    split
    · -- the state after both is the state after the first
      rename_i hsame
      simp only [kinds, List.map_cons, ← hsame.1, Kind.run_cons] at h ⊢
      cases hnext : Kind.advance inside p.kind with
      | none => simp [hnext] at h
      | some next =>
        obtain rfl := Kind.eq_of_advance hsame.2 hnext
        simpa [hnext] using h
    · split
      · rename_i hclose
        obtain ⟨hp, hq⟩ := hclose
        have hrest : Kind.run inside (.closeTag :: .inlineHtml :: kinds rest) = some final := by
          simpa [kinds, hp, hq] using h
        cases inside with
        | false => simp [Kind.run, Kind.advance] at hrest
        | true =>
          rw [absorb]
          split
          · simpa [kinds, Kind.run, Kind.advance] using hrest
          · simpa [kinds, Kind.run, Kind.advance] using hrest
      · exact h

/-- **Joining pieces obeys the grammar** if the pieces do. -/
theorem run_join {ps : List Piece} {inside final : Bool}
    (h : Kind.run inside (kinds ps) = some final) :
    Kind.run inside (kinds (join ps)) = some final := by
  induction ps generalizing inside with
  | nil => exact h
  | cons p ps ih =>
    refine run_cons ?_
    simp only [kinds, List.map_cons, Kind.run_cons] at h ⊢
    obtain ⟨next, hnext, hrest⟩ := Option.bind_eq_some_iff.mp h
    rw [hnext, Option.bind_some]
    exact ih hrest

/-- The closing tags of a template: the line break after one belongs to it. -/
def closeTags : List Text :=
  ["?>".toList, "?>\n".toList, "?>\r\n".toList]

/-- The line break at the front is missing, a line feed, or a carriage return with one. -/
theorem leadingBreak_cases (s : Text) :
    s.take (leadingBreak s) = [] ∨ s.take (leadingBreak s) = ['\n'] ∨
      s.take (leadingBreak s) = ['\r', '\n'] := by
  unfold leadingBreak
  split
  · exact .inr (.inr rfl)
  · exact .inr (.inl rfl)
  · exact .inl rfl

/-- The tags of segments once pieces are joined. -/
structure Spelt (p : Piece) : Prop where
  closes : p.kind = .closeTag → p.text ∈ closeTags
  opens : p.kind.isOpen = true → "<?".toList <+: p.text

/-- A bare piece is spelt as a joined one may be. -/
theorem Bare.spelt {p : Piece} (h : p.Bare) : p.Spelt where
  closes hkind := by
    rw [h.closes hkind]
    exact List.mem_cons_self ..
  opens := h.opens

/-- What becomes of a piece put in front of others: it stays, it is joined to the
next one, or it takes the line break of the markup behind it. -/
theorem mem_cons_cases {p r : Piece} {ps : List Piece} (h : r ∈ cons p ps) :
    r = p ∨ r ∈ ps ∨ r.kind = .inlineHtml ∨
      (p.kind.isMergeable = true ∧ ∃ more, r = ⟨p.kind, p.text ++ more⟩) ∨
      (p.kind = .closeTag ∧
        ∃ markup : Text, r = ⟨.closeTag, p.text ++ markup.take (leadingBreak markup)⟩) := by
  cases ps with
  | nil => exact .inl (List.mem_singleton.mp h)
  | cons q rest =>
    have hrest : r ∈ rest → r ∈ q :: rest := List.mem_cons_of_mem q
    rw [cons] at h
    split at h
    · rename_i hsame
      rcases List.mem_cons.mp h with rfl | h
      · exact .inr (.inr (.inr (.inl ⟨hsame.2, q.text, rfl⟩)))
      · exact .inr (.inl (hrest h))
    · split at h
      · rename_i hclose
        rw [absorb] at h
        rcases List.mem_cons.mp h with rfl | h
        · exact .inr (.inr (.inr (.inr ⟨hclose.1, q.text, rfl⟩)))
        · -- the markup that is left, unless it was all line break
          split at h
          · exact .inr (.inl (hrest h))
          · rcases List.mem_cons.mp h with rfl | h
            · exact .inr (.inr (.inl rfl))
            · exact .inr (.inl (hrest h))
      · rcases List.mem_cons.mp h with rfl | h
        · exact .inl rfl
        · exact .inr (.inl h)

/-- A bare piece may be joined to pieces that are spelt. -/
theorem spelt_cons {p : Piece} {ps : List Piece} (hp : p.Bare) (hps : ∀ q ∈ ps, q.Spelt) :
    ∀ r ∈ cons p ps, r.Spelt := by
  intro r hr
  rcases mem_cons_cases hr with
    rfl | hr | hkind | ⟨hmerge, more, rfl⟩ | ⟨hclose, markup, rfl⟩
  · exact hp.spelt
  · exact hps r hr
  · constructor <;> intro h <;> rw [hkind] at h <;> cases h
  · refine ⟨fun hkind => ?_, fun hkind => (hp.opens hkind).trans (List.prefix_append ..)⟩
    -- closing tags are not joined
    rw [show p.kind = .closeTag from hkind] at hmerge
    exact Bool.noConfusion hmerge
  · refine ⟨fun _ => ?_, Bool.noConfusion⟩
    rw [hp.closes hclose]
    rcases leadingBreak_cases markup with hbreak | hbreak | hbreak <;>
      simp [hbreak, closeTags]

/-- Joined pieces are spelt. -/
theorem spelt_join {ps : List Piece} (hps : ∀ p ∈ ps, p.Bare) : ∀ p ∈ join ps, p.Spelt := by
  induction ps with
  | nil => exact List.forall_mem_nil _
  | cons p ps ih =>
    obtain ⟨hp, hrest⟩ := List.forall_mem_cons.mp hps
    exact spelt_cons hp (ih hrest)

/-- Offsets leave the kinds alone. -/
theorem kinds_locate (start : Nat) (ps : List Piece) :
    (locate start ps).map (·.kind) = kinds ps := by
  induction ps generalizing start with
  | nil => rfl
  | cons p ps ih => simp [locate, kinds, ih]

end Piece

/-! ## Tokens -/

/-- **The kinds of the tokens are a run of the machine.** -/
theorem tokenize_run (shortTags : Bool) (s : Text) :
    ∃ inside, Kind.run false ((tokenize shortTags s).map (·.kind)) = some inside := by
  obtain ⟨inside, h⟩ := Reading.run_pieces shortTags .outside (Php.lexemes s)
  refine ⟨inside, ?_⟩
  rw [tokenize, Piece.kinds_locate]
  exact Piece.run_join h

/-- Every token is spelt like a joined piece. -/
theorem exists_spelt {shortTags : Bool} {s : Text} {t : Token} (ht : t ∈ tokenize shortTags s) :
    ∃ p : Piece, p.Spelt ∧ t.kind = p.kind ∧ t.text = p.text := by
  obtain ⟨p, hp, hkind, htext⟩ := Piece.exists_of_mem_locate ht
  have houtside : Reading.outside.HoldsOpener := by simp [Reading.HoldsOpener]
  exact ⟨p, Piece.spelt_join (Reading.bare_pieces houtside _) p hp, hkind, htext⟩

/-- A closing tag holds at most one line break. -/
theorem closeTag_text {shortTags : Bool} {s : Text} {t : Token} (ht : t ∈ tokenize shortTags s)
    (hkind : t.kind = .closeTag) : t.text ∈ Piece.closeTags := by
  obtain ⟨p, hp, hsame, htext⟩ := exists_spelt ht
  rw [htext]
  exact hp.closes (hsame ▸ hkind)

/-- An opening tag begins with the bare opener. -/
theorem openTag_text {shortTags : Bool} {s : Text} {t : Token} (ht : t ∈ tokenize shortTags s)
    (hkind : t.kind.isOpen = true) : "<?".toList <+: t.text := by
  obtain ⟨p, hp, hsame, htext⟩ := exists_spelt ht
  rw [htext]
  exact hp.opens (hsame ▸ hkind)

end TemplateTidy
