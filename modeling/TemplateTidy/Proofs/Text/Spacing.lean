import TemplateTidy.Proofs.Text.Trim

/-!
# Texts that differ in white space

Two texts that differ in white space only are the same *solids* with different
white space between them. A *cell* is one solid with the white space before it
in the source (its gap) and as printed (its pad).

Whoever prints cells must say where he puts white space that the source does not
have, and where he leaves out what the source has (`Cell.Sound`). White space is
put in at the start of the text, after `>` and `}`, before `<` and
`{`, and at places named in advance, the *cuts*. It is left out at the start,
on either side of an equals sign, and before `>`.

For a closer look cells are spelt out as *edits*, one for each character of the
source.

Main results: `Cell.source_edits`, `Cell.printed_edits`, `Cell.sound_edits`.
-/

namespace TemplateTidy

/-! ## Cells -/

/-- Something printed with other white space before it. -/
structure Cell where
  gap : Text
  pad : Text
  solid : Text

namespace Cell

/-- The cells as they stand in the source. -/
def source (cells : List Cell) : Text :=
  cells.flatMap fun x => x.gap ++ x.solid

/-- The cells as they are printed. -/
def printed (cells : List Cell) : Text :=
  cells.flatMap fun x => x.pad ++ x.solid

@[simp] theorem source_nil : source [] = [] := rfl

@[simp] theorem printed_nil : printed [] = [] := rfl

@[simp] theorem source_append (a b : List Cell) : source (a ++ b) = source a ++ source b :=
  List.flatMap_append

@[simp] theorem printed_append (a b : List Cell) : printed (a ++ b) = printed a ++ printed b :=
  List.flatMap_append

@[simp] theorem source_cons (x : Cell) (cells : List Cell) :
    source (x :: cells) = x.gap ++ x.solid ++ source cells := rfl

@[simp] theorem printed_cons (x : Cell) (cells : List Cell) :
    printed (x :: cells) = x.pad ++ x.solid ++ printed cells := rfl

/-- White space may be put in between a source text and a character. -/
def Opens (cut : Text → Prop) (before : Text) (c : Char) : Prop :=
  before = [] ∨ before.getLast? = some '>' ∨ before.getLast? = some '\x7d' ∨ c = '<' ∨
    c = '\x7b' ∨ cut (before ++ [c])

/-- White space may be left out between a source text and a character. -/
def Closes (before : Text) (c : Char) : Prop :=
  before = [] ∨ before.getLast? = some '=' ∨ c = '=' ∨ c = '>'

/-- The white space of a cell is such as may be printed after a source text. -/
structure Sound (cut : Text → Prop) (before : Text) (x : Cell) : Prop where
  gap_blank : x.gap.Blank
  pad_blank : x.pad.Blank
  solid_ne : x.solid ≠ []
  opens : x.gap = [] → x.pad ≠ [] → ∀ c, x.solid.head? = some c → Opens cut before c
  closes : x.gap ≠ [] → x.pad = [] → ∀ c, x.solid.head? = some c → Closes before c

/-- All cells are sound where they stand. -/
def AllSound (cut : Text → Prop) (cells : List Cell) : Prop :=
  ∀ before x after, cells = before ++ x :: after → Sound cut (source before) x

/-- A cell stays sound where more cuts are allowed. -/
theorem Sound.mono {cut cut' : Text → Prop} (hcut : ∀ t, cut t → cut' t) {before : Text} {x : Cell}
    (h : Sound cut before x) : Sound cut' before x where
  gap_blank := h.gap_blank
  pad_blank := h.pad_blank
  solid_ne := h.solid_ne
  closes := h.closes
  opens hgap hpad c hc := by
    rcases h.opens hgap hpad c hc with h | h | h | h | h | h
    · exact .inl h
    · exact .inr (.inl h)
    · exact .inr (.inr (.inl h))
    · exact .inr (.inr (.inr (.inl h)))
    · exact .inr (.inr (.inr (.inr (.inl h))))
    · exact .inr (.inr (.inr (.inr (.inr (hcut _ h)))))

/-- Cells stay sound where more cuts are allowed. -/
theorem AllSound.mono {cut cut' : Text → Prop} (hcut : ∀ t, cut t → cut' t) {cells : List Cell}
    (h : AllSound cut cells) : AllSound cut' cells :=
  fun before x after hx => (h before x after hx).mono hcut

theorem allSound_nil (cut : Text → Prop) : AllSound cut [] := by
  intro before x after h
  simp at h

/-- One more cell behind the others is to be sound behind their source. -/
theorem AllSound.concat {cut : Text → Prop} {cells : List Cell} {x : Cell}
    (h : AllSound cut cells) (hx : Sound cut (source cells) x) : AllSound cut (cells ++ [x]) := by
  intro before y after hy
  -- the cell is the last one, or it stands among those before
  rcases List.eq_nil_or_concat after with rfl | ⟨after, z, rfl⟩
  · obtain ⟨rfl, hlast⟩ := List.append_inj' hy rfl
    obtain ⟨rfl, -⟩ := List.cons.inj hlast
    exact hx
  · rw [List.concat_eq_append, ← List.cons_append, ← List.append_assoc] at hy
    exact h before y after (List.append_inj' hy rfl).1

/-- White space is printed before the last character of the given source text. -/
def CutAt (cells : List Cell) (t : Text) : Prop :=
  ∃ before x after, cells = before ++ x :: after ∧ x.pad ≠ [] ∧
    source before ++ x.gap ++ x.solid.take 1 = t

/-- White space at a place is there with more cells behind. -/
theorem CutAt.append {cells : List Cell} {t : Text} (h : CutAt cells t) (more : List Cell) :
    CutAt (cells ++ more) t := by
  obtain ⟨before, x, after, rfl, hpad, ht⟩ := h
  exact ⟨before, x, after ++ more, by simp, hpad, ht⟩

/-- The last cell has white space before its first character if it has a pad. -/
theorem cutAt_concat {cells : List Cell} {x : Cell} {t : Text} (hpad : x.pad ≠ [])
    (ht : source cells ++ x.gap ++ x.solid.take 1 = t) : CutAt (cells ++ [x]) t :=
  ⟨cells, x, [], rfl, hpad, ht⟩

end Cell

/-! ## Cells and chunks -/

namespace Chunk

/-- The characters of several chunks. -/
def textOf (chunks : List Chunk) : Text :=
  chunks.flatMap text

@[simp] theorem textOf_nil : textOf [] = [] := rfl

@[simp] theorem textOf_append (a b : List Chunk) : textOf (a ++ b) = textOf a ++ textOf b :=
  List.flatMap_append

@[simp] theorem textOf_cons (x : Chunk) (chunks : List Chunk) :
    textOf (x :: chunks) = x.text ++ textOf chunks := rfl

end Chunk

/-- The words of a sequence of chunks as cells, with what is left of the gaps
behind the last one. -/
inductive Sets : List Chunk → List Cell → Text → Prop
  | nil : Sets [] [] []
  | gap {chunks : List Chunk} {cells : List Cell} {rest : Text} (h : Sets chunks cells rest)
      {s : Text} (hs : s.Blank) : Sets (chunks ++ [.gap s]) cells (rest ++ s)
  | word {chunks : List Chunk} {cells : List Cell} {rest : Text} (h : Sets chunks cells rest)
      (pad : Text) (s : Text) : Sets (chunks ++ [.word s]) (cells ++ [⟨rest, pad, s⟩]) []

namespace Sets

variable {chunks : List Chunk} {cells : List Cell} {rest : Text}

/-- What is left of the gaps is white space. -/
theorem blank_rest (h : Sets chunks cells rest) : rest.Blank := by
  induction h with
  | nil => exact Text.blank_nil
  | gap h hs ih => exact Text.blank_append.mpr ⟨ih, hs⟩
  | word h pad s ih => exact Text.blank_nil

/-- **Chunks are the source of their cells**, with the white space that is left. -/
theorem textOf_eq (h : Sets chunks cells rest) :
    Chunk.textOf chunks = Cell.source cells ++ rest := by
  induction h with
  | nil => rfl
  | gap h hs ih => simp [ih, Chunk.text]
  | word h pad s ih => simp [ih, Chunk.text]

/-- Every word is the solid of a cell at its place. -/
theorem exists_cell (h : Sets chunks cells rest) {before after : List Chunk} {s : Text}
    (hs : chunks = before ++ .word s :: after) :
    ∃ front x back, cells = front ++ x :: back ∧ x.solid = s ∧
      Cell.source front ++ x.gap = Chunk.textOf before := by
  induction h generalizing after with
  | nil => simp at hs
  | @gap chunks cells rest h t ht ih =>
    -- a gap is not the word that is looked for
    rcases List.eq_nil_or_concat after with rfl | ⟨after, z, rfl⟩
    · have hlast := (List.append_inj' hs rfl).2
      simp at hlast
    · rw [List.concat_eq_append, ← List.cons_append, ← List.append_assoc] at hs
      exact ih (List.append_inj' hs rfl).1
  | @word chunks cells rest h pad t ih =>
    rcases List.eq_nil_or_concat after with rfl | ⟨after, z, rfl⟩
    · obtain ⟨rfl, hlast⟩ := List.append_inj' hs rfl
      obtain ⟨hword, -⟩ := List.cons.inj hlast
      exact ⟨cells, ⟨rest, pad, t⟩, [], rfl, Chunk.word.inj hword, h.textOf_eq.symm⟩
    · rw [List.concat_eq_append, ← List.cons_append, ← List.append_assoc] at hs
      obtain ⟨front, x, back, rfl, hx⟩ := ih (List.append_inj' hs rfl).1
      exact ⟨front, x, back ++ [⟨rest, pad, t⟩], by simp, hx⟩

end Sets

/-! ## Edits -/

/-- What becomes of one character of the source: it is dropped, or it is kept
with white space put before it. -/
inductive Edit where
  | drop (c : Char)
  | keep (pad : Text) (c : Char)

namespace Edit

/-- The source of edits. -/
def source (edits : List Edit) : Text :=
  edits.map fun
    | drop c => c
    | keep _ c => c

/-- What edits make of the source. -/
def printed (edits : List Edit) : Text :=
  edits.flatMap fun
    | drop _ => []
    | keep pad c => pad ++ [c]

@[simp] theorem source_nil : source [] = [] := rfl

@[simp] theorem printed_nil : printed [] = [] := rfl

@[simp] theorem source_append (a b : List Edit) : source (a ++ b) = source a ++ source b :=
  List.map_append

@[simp] theorem printed_append (a b : List Edit) : printed (a ++ b) = printed a ++ printed b :=
  List.flatMap_append

@[simp] theorem source_drop (c : Char) (es : List Edit) :
    source (drop c :: es) = c :: source es := rfl

@[simp] theorem source_keep (pad : Text) (c : Char) (es : List Edit) :
    source (keep pad c :: es) = c :: source es := rfl

@[simp] theorem printed_drop (c : Char) (es : List Edit) :
    printed (drop c :: es) = printed es := rfl

@[simp] theorem printed_keep (pad : Text) (c : Char) (es : List Edit) :
    printed (keep pad c :: es) = pad ++ c :: printed es := by
  simp [printed]

/-- Edits that change nothing. -/
def copy (s : Text) : List Edit :=
  s.map (keep [])

/-- A copy is made from the text it copies. -/
@[simp] theorem source_copy (s : Text) : source (copy s) = s := by
  rw [source, copy, List.map_map]
  exact List.map_id s

/-- A copy prints the text it copies. -/
@[simp] theorem printed_copy (s : Text) : printed (copy s) = s := by
  induction s with
  | nil => rfl
  | cons c s ih =>
    rw [show copy (c :: s) = keep [] c :: copy s from rfl, printed_keep, ih, List.nil_append]

@[simp] theorem source_map_drop (s : Text) : source (s.map drop) = s := by
  rw [source, List.map_map]
  exact List.map_id s

@[simp] theorem printed_map_drop (s : Text) : printed (s.map drop) = [] := by
  simp [printed]

/-- The source, cut somewhere, cuts the edits. -/
theorem source_eq_append {es : List Edit} {s t : Text} (h : source es = s ++ t) :
    ∃ es₁ es₂, es = es₁ ++ es₂ ∧ source es₁ = s ∧ source es₂ = t := by
  obtain ⟨es₁, es₂, rfl, hs, ht⟩ := List.map_eq_append_iff.mp h
  exact ⟨es₁, es₂, rfl, hs, ht⟩

/-- What an edit knows of the edits before it. -/
structure Trail where
  source : Text
  /-- The last character that was kept. -/
  kept : Option Char
  /-- Characters have been dropped since. -/
  dropped : Bool

namespace Trail

/-- The trail after one more edit. -/
def after (t : Trail) : Edit → Trail
  | drop c => ⟨t.source ++ [c], t.kept, true⟩
  | keep _ c => ⟨t.source ++ [c], some c, false⟩

/-- The trail after several edits. -/
def run (t : Trail) (es : List Edit) : Trail :=
  es.foldl after t

/-- The trail at the end of a cell. -/
def atEnd (s : Text) : Trail :=
  ⟨s, s.getLast?, false⟩

@[simp] theorem run_nil (t : Trail) : t.run [] = t := rfl

@[simp] theorem run_cons (t : Trail) (e : Edit) (es : List Edit) :
    t.run (e :: es) = (t.after e).run es := rfl

theorem run_append (t : Trail) (a b : List Edit) : t.run (a ++ b) = (t.run a).run b :=
  List.foldl_append

/-- A trail follows the source of its edits. -/
theorem source_run (t : Trail) (es : List Edit) :
    (t.run es).source = t.source ++ Edit.source es := by
  induction es generalizing t with
  | nil => simp
  | cons e es ih =>
    rw [run_cons, ih]
    cases e <;> simp [after]

end Trail

/-- The edit does to its character what may be done behind a trail. -/
def Sound (cut : Text → Prop) (t : Trail) : Edit → Prop
  | drop c => isBlank c = true
  | keep pad c =>
    pad.Blank ∧
    (pad ≠ [] → (∃ b, t.source.getLast? = some b ∧ isBlank b = true) ∨ Cell.Opens cut t.source c) ∧
    (pad = [] → t.dropped = true → t.kept = none ∨ t.kept = some '=' ∨ c = '=' ∨ c = '>')

/-- All edits are sound where they stand. -/
def AllSound (cut : Text → Prop) : Trail → List Edit → Prop
  | _, [] => True
  | t, e :: es => Sound cut t e ∧ AllSound cut (t.after e) es

/-- Edits in two parts are sound if each part is, the second one behind the first. -/
theorem allSound_append {cut : Text → Prop} {t : Trail} {a b : List Edit} :
    AllSound cut t (a ++ b) ↔ AllSound cut t a ∧ AllSound cut (t.run a) b := by
  induction a generalizing t with
  | nil => simp [AllSound]
  | cons e a ih => rw [List.cons_append, AllSound, ih, AllSound, Trail.run_cons, and_assoc]

/-- Copying is sound, unless something has been dropped just before. -/
theorem allSound_copy (cut : Text → Prop) (s : Text) {t : Trail} (ht : t.dropped = false) :
    AllSound cut t (copy s) := by
  induction s generalizing t with
  | nil => trivial
  | cons c s ih =>
    refine ⟨⟨Text.blank_nil, fun h => absurd rfl h, fun _ hd => ?_⟩, ih rfl⟩
    rw [ht] at hd
    exact Bool.noConfusion hd

/-- Dropping white space is sound. -/
theorem allSound_map_drop {cut : Text → Prop} {s : Text} (hs : s.Blank) (t : Trail) :
    AllSound cut t (s.map drop) := by
  induction s generalizing t with
  | nil => trivial
  | cons c s ih =>
    rw [Text.blank_cons] at hs
    exact ⟨hs.1, ih hs.2 _⟩

/-- Behind a copy the last character kept is the last one of the text. -/
theorem run_copy (t : Trail) {s : Text} (hs : s ≠ []) :
    t.run (copy s) = ⟨t.source ++ s, s.getLast?, false⟩ := by
  induction s generalizing t with
  | nil => exact absurd rfl hs
  | cons c s ih =>
    rw [show copy (c :: s) = keep [] c :: copy s from rfl, Trail.run_cons]
    cases s with
    | nil => rfl
    | cons d s =>
      rw [ih _ (List.cons_ne_nil d s)]
      simp [Trail.after]

/-- Behind characters that are dropped, the last one kept is the one before them. -/
theorem run_map_drop (t : Trail) {s : Text} (hs : s ≠ []) :
    t.run (s.map drop) = ⟨t.source ++ s, t.kept, true⟩ := by
  induction s generalizing t with
  | nil => exact absurd rfl hs
  | cons c s ih =>
    rw [List.map_cons, Trail.run_cons]
    cases s with
    | nil => rfl
    | cons d s =>
      rw [ih _ (List.cons_ne_nil d s)]
      simp [Trail.after]

end Edit

namespace Cell

open Edit

/-- A cell, character by character. White space that is printed as it stands is
kept. -/
def edits (x : Cell) : List Edit :=
  if x.gap = x.pad then copy (x.gap ++ x.solid)
  else x.gap.map drop ++
    match x.solid with
    | [] => []
    | c :: cs => keep x.pad c :: copy cs

/-- The edits of cells have the source of the cells. -/
theorem source_edits (cells : List Cell) : Edit.source (cells.flatMap edits) = source cells := by
  induction cells with
  | nil => rfl
  | cons x cells ih =>
    rw [List.flatMap_cons, Edit.source_append, ih, source_cons]
    unfold edits
    split
    · rw [source_copy]
    · cases x.solid <;> simp

/-- The edits of cells print what the cells do. -/
theorem printed_edits (cells : List Cell) (h : ∀ x ∈ cells, x.solid ≠ []) :
    Edit.printed (cells.flatMap edits) = printed cells := by
  induction cells with
  | nil => rfl
  | cons x cells ih =>
    rw [List.flatMap_cons, Edit.printed_append, ih fun y hy => h y (List.mem_cons_of_mem _ hy),
      printed_cons]
    obtain ⟨c, cs, hsolid⟩ := List.exists_cons_of_ne_nil (h x (List.mem_cons_self ..))
    unfold edits
    split
    · rename_i hsame
      rw [printed_copy, hsame]
    · rw [hsolid]
      simp

/-- A cell with a gap of its own, behind what comes before it. -/
theorem edits_of_ne {x : Cell} (h : x.gap ≠ x.pad) {c : Char} {cs : Text}
    (hsolid : x.solid = c :: cs) : x.edits = x.gap.map drop ++ keep x.pad c :: copy cs := by
  rw [edits, if_neg h, hsolid]

/-- The edits of a cell lead from its beginning to its end. -/
theorem run_edits {x : Cell} (hx : x.solid ≠ []) (s : Text) :
    (Trail.atEnd s).run x.edits = Trail.atEnd (s ++ x.gap ++ x.solid) := by
  obtain ⟨c, cs, hsolid⟩ := List.exists_cons_of_ne_nil hx
  have hlast : ∀ t : Text, (t ++ c :: cs).getLast? = (c :: cs).getLast? := by
    intro t
    rw [List.getLast?_append_of_ne_nil _ (List.cons_ne_nil c cs)]
  by_cases hsame : x.gap = x.pad
  · rw [edits, if_pos hsame, run_copy _ (by simp [hsolid]), hsolid, Trail.atEnd, Trail.atEnd,
      hlast, hlast, List.append_assoc]
  · -- the last character of the solid is kept in any case
    have hcopy : ∀ t : Trail, (t.after (keep x.pad c)).run (copy cs) =
        ⟨t.source ++ c :: cs, (c :: cs).getLast?, false⟩ := by
      intro t
      cases cs with
      | nil => rfl
      | cons d cs =>
        rw [run_copy _ (List.cons_ne_nil d cs)]
        simp [Trail.after]
    rw [edits_of_ne hsame hsolid, Trail.run_append, Trail.run_cons, hcopy, Trail.source_run,
      source_map_drop, hsolid, Trail.atEnd, Trail.atEnd, hlast]

/-- **A sound cell makes sound edits.** -/
theorem allSound_of_sound {cut : Text → Prop} {s : Text} {x : Cell} (h : Sound cut s x) :
    Edit.AllSound cut (Trail.atEnd s) x.edits := by
  by_cases hsame : x.gap = x.pad
  · rw [edits, if_pos hsame]
    exact allSound_copy cut _ rfl
  · obtain ⟨c, cs, hsolid⟩ := List.exists_cons_of_ne_nil h.solid_ne
    have hhead : x.solid.head? = some c := by rw [hsolid, List.head?_cons]
    rw [edits_of_ne hsame hsolid, Edit.allSound_append]
    refine ⟨allSound_map_drop h.gap_blank _, ⟨h.pad_blank, ?_, ?_⟩, allSound_copy cut cs rfl⟩
    · -- white space is put in where there was some, or where the cell opens
      intro hpad
      rw [Trail.source_run, source_map_drop]
      rcases List.eq_nil_or_concat x.gap with hgap | ⟨gap, b, hgap⟩
      · refine .inr ?_
        rw [hgap, List.append_nil]
        exact h.opens hgap hpad c hhead
      · rw [List.concat_eq_append] at hgap
        have hb := h.gap_blank
        rw [hgap, Text.blank_append, Text.blank_cons] at hb
        refine .inl ⟨b, ?_, hb.2.1⟩
        rw [hgap, ← List.append_assoc, List.getLast?_concat]
    · -- white space is taken out only where it may be, which is where the cell closes
      intro hpad hdropped
      have hgap : x.gap ≠ [] := by
        rintro hgap
        rw [hgap, hpad] at hsame
        exact hsame rfl
      rw [run_map_drop _ hgap]
      rcases h.closes hgap hpad c hhead with rfl | hlast | rfl | rfl
      · exact .inl rfl
      · exact .inr (.inl hlast)
      · exact .inr (.inr (.inl rfl))
      · exact .inr (.inr (.inr rfl))

/-- **Sound cells are sound edits.** -/
theorem sound_edits {cut : Text → Prop} {cells : List Cell} (s : Text)
    (h : ∀ before x after, cells = before ++ x :: after → Sound cut (s ++ source before) x) :
    Edit.AllSound cut (Trail.atEnd s) (cells.flatMap edits) := by
  induction cells generalizing s with
  | nil => trivial
  | cons x cells ih =>
    have hx : Sound cut s x := by
      have hfirst := h [] x cells rfl
      rwa [source_nil, List.append_nil] at hfirst
    rw [List.flatMap_cons, Edit.allSound_append]
    refine ⟨allSound_of_sound hx, ?_⟩
    rw [run_edits hx.solid_ne]
    refine ih _ fun before y after hy => ?_
    have hnext := h (x :: before) y after (by rw [hy, List.cons_append])
    rwa [source_cons, ← List.append_assoc, ← List.append_assoc] at hnext

end Cell

end TemplateTidy
