import TemplateTidy.Proofs.Text.Spacing

/-!
# Typesetting chunks

A printer goes over the chunks of a text one after the other. `Typeset` is what
holds of the cells it has made so far: they are sound, and there is white space
at every cut. A gap is only noted (`Typeset.gap`); a word is printed where white
space may be put in or left out (`Typeset.word`), or at a cut of its own
(`Typeset.cutWord`).

What a printer copies as it stands is one word and the white space behind it
(`Chunk.solid`).

Main results: `Typeset.word`, `Typeset.cutWord`, `Typeset.solid`.
-/

namespace TemplateTidy

/-! ## Chunks that alternate -/

namespace Chunk

/-- The words among chunks. -/
def wordsOf (chunks : List Chunk) : List Text :=
  chunks.filterMap fun
    | word s => some s
    | gap _ => none

@[simp] theorem wordsOf_gap (s : Text) (chunks : List Chunk) :
    wordsOf (gap s :: chunks) = wordsOf chunks := rfl

@[simp] theorem wordsOf_word (s : Text) (chunks : List Chunk) :
    wordsOf (word s :: chunks) = s :: wordsOf chunks := rfl

/-- The first chunk is not a word. -/
def GapFirst (chunks : List Chunk) : Prop :=
  ∀ s, chunks.head? ≠ some (word s)

/-- Gaps are white space, and there is one between any two words. -/
def Spaced : List Chunk → Prop
  | [] => True
  | gap s :: rest => s.Blank ∧ s ≠ [] ∧ Spaced rest
  | word s :: rest => s ≠ [] ∧ GapFirst rest ∧ Spaced rest

/-- Words are not empty. -/
theorem ne_nil_of_mem_wordsOf {chunks : List Chunk} (h : Spaced chunks) :
    ∀ w ∈ wordsOf chunks, w ≠ [] := by
  induction chunks with
  | nil => exact List.forall_mem_nil _
  | cons x chunks ih =>
    cases x with
    | gap s => exact ih h.2.2
    | word s => exact List.forall_mem_cons.mpr ⟨h.1, ih h.2.2⟩

theorem gapFirst_gap (s : Text) (chunks : List Chunk) : GapFirst (gap s :: chunks) := by
  intro t h
  cases h

/-- One more character in front keeps gaps and words apart. -/
theorem spaced_cons (c : Char) {chunks : List Chunk} (h : Spaced chunks) :
    Spaced (cons c chunks) := by
  -- a blank joins a gap and begins one before a word, and the other way round
  cases hc : isBlank c with
  | true =>
    have hone : Text.Blank [c] := Text.blank_cons.mpr ⟨hc, Text.blank_nil⟩
    cases chunks with
    | nil => simp [cons, hc, Spaced]
    | cons x rest =>
      cases x with
      | gap s =>
        rw [cons, if_pos hc]
        exact ⟨Text.blank_cons.mpr ⟨hc, h.1⟩, List.cons_ne_nil c s, h.2.2⟩
      | word s =>
        rw [cons, if_pos hc]
        exact ⟨hone, List.cons_ne_nil c [], h⟩
  | false =>
    have hneg : ¬ isBlank c = true := by simp [hc]
    cases chunks with
    | nil =>
      rw [cons, if_neg hneg]
      exact ⟨List.cons_ne_nil c [], (fun s hs => nomatch hs), trivial⟩
    | cons x rest =>
      cases x with
      | gap s =>
        rw [cons, if_neg hneg]
        exact ⟨List.cons_ne_nil c [], gapFirst_gap s rest, h⟩
      | word s =>
        rw [cons, if_neg hneg]
        exact ⟨List.cons_ne_nil c s, h.2.1, h.2.2⟩

/-- A text is divided into words with gaps between them. -/
theorem spaced_ofText (s : Text) : Spaced (ofText s) := by
  induction s with
  | nil => trivial
  | cons c s ih => exact spaced_cons c ih

/-- A word of a text has no white space at its end. -/
theorem tight_of_mem_ofText {s w : Text} (h : word w ∈ ofText s) : Text.Tight w := by
  induction s generalizing w with
  | nil => cases h
  | cons c s ih =>
    have hw : word w ∈ cons c (ofText s) := h
    have hspaced := spaced_ofText s
    cases hc : isBlank c with
    | true =>
      -- a blank makes no word
      cases hs : ofText s with
      | nil => simp [hs, cons, hc] at hw
      | cons x rest =>
        rw [hs] at ih
        cases x with
        | gap t =>
          simp only [hs, cons, hc, if_true, List.mem_cons, reduceCtorEq, false_or] at hw
          exact ih (List.mem_cons_of_mem _ hw)
        | word t =>
          simp only [hs, cons, hc, if_true, List.mem_cons, reduceCtorEq, false_or] at hw
          exact ih (List.mem_cons.mpr hw)
    | false =>
      -- any other character is a word, or the front of one
      have hone : Text.Tight [c] := Text.tight_concat hc []
      cases hs : ofText s with
      | nil =>
        simp only [hs, cons, hc, Bool.false_eq_true, if_false, List.mem_singleton, word.injEq] at hw
        rwa [hw]
      | cons x rest =>
        rw [hs] at ih hspaced
        cases x with
        | gap t =>
          simp only [hs, cons, hc, Bool.false_eq_true, if_false] at hw
          rcases List.mem_cons.mp hw with hw | hw
          · rwa [word.inj hw]
          · exact ih hw
        | word t =>
          simp only [hs, cons, hc, Bool.false_eq_true, if_false] at hw
          rcases List.mem_cons.mp hw with hw | hw
          · rw [word.inj hw]
            exact (ih (List.mem_cons_self ..)).append (s := [c]) hspaced.1
          · exact ih (List.mem_cons_of_mem _ hw)

/-- The chunks of a text are the text. -/
theorem textOf_ofText (s : Text) : textOf (ofText s) = s := by
  have hcons : ∀ (c : Char) (chunks : List Chunk), textOf (cons c chunks) = c :: textOf chunks := by
    intro c chunks
    unfold cons
    split <;> split <;> rfl
  induction s with
  | nil => rfl
  | cons c s ih =>
    rw [show ofText (c :: s) = cons c (ofText s) from rfl, hcons, ih]

/-- A text that is copied as it stands: all of it but the white space at the end is
one word. -/
def solid (s : Text) : List Chunk :=
  (if Text.trimRight s = [] then [] else [word (Text.trimRight s)]) ++ [gap (Text.trailing s)]

/-- Text that is copied as it stands is all there. -/
theorem textOf_solid (s : Text) : textOf (solid s) = s := by
  have hcut := Text.trimRight_append_trailing s
  unfold solid
  split
  · rename_i hnil
    rw [hnil] at hcut
    simpa [text] using hcut
  · simpa [text] using hcut

end Chunk

/-! ## Typesetting -/

/-- Chunks have been typeset as cells with white space behind them. There is white
space at every cut. -/
structure Typeset (cut : Text → Prop) (chunks : List Chunk) (cells : List Cell) (rest : Text) :
    Prop where
  sets : Sets chunks cells rest
  sound : Cell.AllSound cut cells
  cuts : ∀ t, cut t → Cell.CutAt cells t

namespace Typeset

open Chunk

variable {cut : Text → Prop} {chunks : List Chunk} {cells : List Cell} {rest : Text}

/-- Cuts may be told in other words. -/
theorem congr {cut' : Text → Prop} (h : Typeset cut chunks cells rest)
    (hcut : ∀ t, cut' t ↔ cut t) : Typeset cut' chunks cells rest where
  sets := h.sets
  sound := h.sound.mono fun t => (hcut t).mpr
  cuts t ht := h.cuts t ((hcut t).mp ht)

/-- Cells print something. -/
theorem printed_ne_nil (h : Typeset cut chunks cells rest) (hne : cells ≠ []) :
    Cell.printed cells ≠ [] := by
  obtain ⟨x, more, rfl⟩ := List.exists_cons_of_ne_nil hne
  have hsolid : x.solid ≠ [] := (h.sound [] x more rfl).solid_ne
  simp [hsolid]

/-- A gap is added to the white space behind the cells. -/
theorem gap (h : Typeset cut chunks cells rest) {s : Text} (hs : s.Blank) :
    Typeset cut (chunks ++ [.gap s]) cells (rest ++ s) :=
  ⟨h.sets.gap hs, h.sound, h.cuts⟩

/-- One more word, where white space may be put in or left out. -/
theorem word (h : Typeset cut chunks cells rest) {pad s : Text} (hpad : pad.Blank) (hs : s ≠ [])
    (hopens : rest = [] → pad ≠ [] → ∀ c, s.head? = some c → Cell.Opens cut (textOf chunks) c)
    (hcloses : rest ≠ [] → pad = [] → ∀ c, s.head? = some c → Cell.Closes (Cell.source cells) c) :
    Typeset cut (chunks ++ [.word s]) (cells ++ [⟨rest, pad, s⟩]) [] where
  sets := h.sets.word pad s
  sound := by
    refine h.sound.concat ⟨h.sets.blank_rest, hpad, hs, ?_, hcloses⟩
    intro hrest hne c hc
    have hopen := hopens hrest hne c hc
    -- without a gap the cells are the text so far
    have hrest' : rest = [] := hrest
    rwa [h.sets.textOf_eq, hrest', List.append_nil] at hopen
  cuts t ht := (h.cuts t ht).append _

/-- A closing bracket, with no white space before it. -/
theorem bracket (h : Typeset cut chunks cells rest) :
    Typeset cut (chunks ++ [.word ['>']]) (cells ++ [⟨rest, [], ['>']⟩]) [] := by
  refine h.word Text.blank_nil (List.cons_ne_nil _ _) (fun _ hnil => absurd rfl hnil) ?_
  intro _ _ c hc
  exact .inr (.inr (.inr (Option.some.inj hc).symm))

/-- One more word, with white space before it that makes a cut. -/
theorem cutWord (h : Typeset cut chunks cells rest) {pad s : Text} {c : Char} (hpad : pad.Blank)
    (hne : pad ≠ []) :
    Typeset (fun t => cut t ∨ t = textOf chunks ++ [c]) (chunks ++ [.word (c :: s)])
      (cells ++ [⟨rest, pad, c :: s⟩]) [] where
  sets := h.sets.word pad (c :: s)
  sound := by
    refine (h.sound.mono fun t => Or.inl).concat
      ⟨h.sets.blank_rest, hpad, List.cons_ne_nil c s, ?_, fun _ hnil => absurd hnil hne⟩
    intro hrest _ d hd
    obtain rfl : c = d := Option.some.inj hd
    have hrest' : rest = [] := hrest
    refine .inr (.inr (.inr (.inr (.inr (.inr ?_)))))
    rw [h.sets.textOf_eq, hrest', List.append_nil]
  cuts t ht := by
    rcases ht with ht | rfl
    · exact (h.cuts t ht).append _
    · refine Cell.cutAt_concat hne ?_
      rw [h.sets.textOf_eq]
      rfl

/-- White space before something: it may be put in before a bracket, and it is left
out only if nothing has been printed. -/
structure Leads (cut : Text → Prop) (chunks : List Chunk) (cells : List Cell) (rest w : Text)
    (c : Char) : Prop where
  blank : w.Blank
  opens : rest = [] → w ≠ [] → Cell.Opens cut (textOf chunks) c
  closes : rest ≠ [] → w = [] → cells = []

/-- A word behind white space. -/
theorem lead {w : Text} {c : Char} (h : Typeset cut chunks cells rest)
    (hw : Leads cut chunks cells rest w c) (s : Text) :
    Typeset cut (chunks ++ [.word (c :: s)]) (cells ++ [⟨rest, w, c :: s⟩]) [] := by
  refine h.word hw.blank (List.cons_ne_nil c s) ?_ ?_
  · intro hrest hne d hd
    obtain rfl : c = d := Option.some.inj hd
    exact hw.opens hrest hne
  · intro hrest hnil d _
    rw [hw.closes hrest hnil]
    exact .inl rfl

/-- Something that is copied as it stands. -/
theorem solid {w : Text} {c : Char} {s : Text} (h : Typeset cut chunks cells rest)
    (hw : Leads cut chunks cells rest w c) (hc : (Text.trimRight s).head? = some c) :
    ∃ x, Typeset cut (chunks ++ Chunk.solid s) (cells ++ [x]) (Text.trailing s) ∧
      Cell.printed [x] = w ++ Text.trimRight s := by
  obtain ⟨s', hs'⟩ : ∃ s', Text.trimRight s = c :: s' := List.head?_eq_some_iff.mp hc
  have hne : Text.trimRight s ≠ [] := by
    rw [hs']
    exact List.cons_ne_nil c s'
  refine ⟨⟨rest, w, c :: s'⟩, ?_, by simp [hs']⟩
  have hgap := (h.lead hw s').gap (Text.blank_trailing s)
  rwa [List.append_assoc, ← hs', List.nil_append,
    show [Chunk.word (Text.trimRight s)] ++ [Chunk.gap (Text.trailing s)] = Chunk.solid s by
      rw [Chunk.solid, if_neg hne], hs'] at hgap

end Typeset

end TemplateTidy
