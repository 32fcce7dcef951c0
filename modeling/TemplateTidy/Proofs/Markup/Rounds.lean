import TemplateTidy.Proofs.Markup.Stroke

/-!
# Scanning in rounds

Markup can be scanned in rounds. In each of them the scanner goes on to the next bracket and
looks whether markup begins there. If so, it gives out the text that it has passed over and
whatever it has read; if not, the bracket belongs to the text. It stops when no bracket is
left.

Nothing but the progress of each round makes it stop: a round takes at least one character.
So it has stopped after one more round than there are characters, and what it has given out
then is the scan.

Main results: `Item.Scanner.length_round`, `Item.Scanner.reads_round`,
`Item.Scanner.exists_rounds`.
-/

namespace TemplateTidy.Item

variable {o : MarkupOptions} {s t u : Text} {items rest : List Item}

/-! ## Text in front of items -/

/-- Puts text in front of items, if there is any. -/
def withText (t : Text) (items : List Item) : List Item :=
  if t.isEmpty then items else consText t items

/-- The item of a text, if there is any. -/
def flush (t : Text) : List Item :=
  if t.isEmpty then [] else [text t]

/-- Text in front of text is one text. -/
theorem withText_withText (s t : Text) (items : List Item) :
    withText s (withText t items) = withText (s ++ t) items := by
  cases s with
  | nil => rfl
  | cons c s =>
    cases t with
    | nil => simp [withText]
    | cons d t => exact consText_consText _ _ items

/-- Text and markup are items of their own. -/
theorem withText_of_fronts (h : Fronts s items) (t : Text) (rest : List Item) :
    withText t (items ++ rest) = flush t ++ (items ++ rest) := by
  cases t with
  | nil => rfl
  | cons c t =>
    cases h with
    | @single i _ _ hmarkup =>
      cases i with
      | text => cases hmarkup
      | _ => rfl
    | content => rfl

/-- The scanner passes over text up to the next bracket. -/
theorem scan_eq_withText (o : MarkupOptions) (s : Text) :
    scan o s = withText (s.takeWhile (· != '<')) (scan o (s.dropWhile (· != '<'))) := by
  have hsplit := List.takeWhile_append_dropWhile (p := (· != '<')) (l := s)
  have hrun : ∀ c ∈ s.takeWhile (· != '<'), c ≠ '<' := by
    intro c hc
    simpa using List.mem_takeWhile_imp hc
  generalize s.takeWhile (· != '<') = run at hsplit hrun ⊢
  generalize s.dropWhile (· != '<') = todo at hsplit ⊢
  rw [← hsplit]
  cases run with
  | nil => rfl
  | cons c run =>
    refine scan_append (List.cons_ne_nil c run) fun u hu hsuffix => ?_
    obtain ⟨d, u, rfl⟩ := List.exists_cons_of_ne_nil hu
    exact opens_eq_false_of_head (hrun d (hsuffix.subset (List.mem_cons_self ..))) _

/-- What is read at the front comes first, and scanning goes on behind it. -/
theorem scan_eq_append (h : markup? o s = some items) :
    scan o s = items ++ scan o (s.drop (rawOf items).length) := by
  have hfronts := fronts_markup? h
  have hsplit := hfronts.raw_prefix
  rw [← hsplit] at h
  have hscan := scan_markup h rfl
  rwa [hsplit] at hscan

/-! ## Rounds -/

/-- A scanner between two rounds. -/
structure Scanner where
  /-- What it has given out. -/
  items : List Item := []
  /-- The text that it has passed over since. -/
  passed : Text := []
  /-- What it has not looked at. -/
  todo : Text

namespace Scanner

/-- One round, unless no bracket is left. -/
def round (o : MarkupOptions) (c : Scanner) : Option Scanner :=
  match c.todo.dropWhile (· != '<') with
  | [] => none
  | bracket :: rest =>
    let passed := c.passed ++ c.todo.takeWhile (· != '<')
    match markup? o (bracket :: rest) with
    | some items =>
      some ⟨c.items ++ flush passed ++ items, [], (bracket :: rest).drop (rawOf items).length⟩
    | none => some ⟨c.items, passed ++ [bracket], rest⟩

/-- Rounds until the scanner stops. Nothing if it has not stopped after so many. -/
def rounds (o : MarkupOptions) : Nat → Scanner → Option Scanner
  | 0, _ => none
  | n + 1, c =>
    match c.round o with
    | none => some c
    | some c => rounds o n c

/-- All items of a scanner that has stopped: what is left is text. -/
def finish (c : Scanner) : List Item :=
  c.items ++ flush (c.passed ++ c.todo)

/-- All items that a scanner is to give out. -/
def reads (o : MarkupOptions) (c : Scanner) : List Item :=
  c.items ++ withText c.passed (scan o c.todo)

variable {c c' : Scanner}

/-- **A round takes at least one character.** -/
theorem length_round (h : c.round o = some c') : c'.todo.length < c.todo.length := by
  have hlength := (List.dropWhile_suffix (l := c.todo) (· != '<')).length_le
  unfold round at h
  split at h
  · cases h
  · rename_i bracket rest heq
    rw [heq, List.length_cons] at hlength
    dsimp only at h
    split at h
    · rename_i items hmarkup
      rw [← Option.some.inj h]
      -- what has been read is not empty
      have hne := List.length_pos_iff.mpr (fronts_markup? hmarkup).ne_nil
      simp only [List.length_drop, List.length_cons]
      omega
    · rw [← Option.some.inj h]
      exact Nat.lt_of_succ_le hlength

/-- **A round does not change what is to be given out.** -/
theorem reads_round (h : c.round o = some c') : c'.reads o = c.reads o := by
  unfold round at h
  rw [reads, reads, scan_eq_withText o c.todo, withText_withText]
  split at h
  · cases h
  · rename_i bracket rest heq
    rw [heq]
    dsimp only at h
    split at h
    · -- the text up to the bracket goes in front of what is read at it
      rename_i items hmarkup
      rw [← Option.some.inj h, scan_eq_append hmarkup,
        withText_of_fronts (fronts_markup? hmarkup)]
      simp [withText]
    · -- a bracket alone becomes part of that text
      rename_i hmarkup
      have hlone : scan o (bracket :: rest) = withText [bracket] (scan o rest) :=
        scan_cons (markup?_eq_none_iff.mp hmarkup)
      rw [← Option.some.inj h, hlone, withText_withText]

/-- A scanner that stops has only text left. -/
theorem reads_of_round_eq_none (h : c.round o = none) : c.reads o = c.finish := by
  have hnone : c.todo.dropWhile (· != '<') = [] := by
    unfold round at h
    split at h
    · assumption
    · dsimp only at h
      split at h <;> cases h
  have hall : c.todo.takeWhile (· != '<') = c.todo := by
    have hsplit := List.takeWhile_append_dropWhile (p := (· != '<')) (l := c.todo)
    rwa [hnone, List.append_nil] at hsplit
  rw [reads, finish, scan_eq_withText, hnone, hall, withText_withText, scan, withText, flush]
  rfl

/-- **The scanner stops**, and has given out what it was to. -/
theorem exists_rounds {n : Nat} (h : c.todo.length < n) :
    ∃ c', rounds o n c = some c' ∧ c'.finish = c.reads o := by
  induction n generalizing c with
  | zero => exact absurd h (Nat.not_lt_zero _)
  | succ n ih =>
    rw [rounds]
    cases hround : c.round o with
    | none => exact ⟨c, rfl, (reads_of_round_eq_none hround).symm⟩
    | some c' =>
      have hprogress := length_round hround
      obtain ⟨c'', hrounds, hfinish⟩ := ih (c := c') (by omega)
      exact ⟨c'', hrounds, hfinish.trans (reads_round hround)⟩

end Scanner

/-- The scan is what the scanner gives out in one more round than there are characters. -/
theorem exists_rounds_eq_scan (o : MarkupOptions) (s : Text) :
    ∃ c, Scanner.rounds o (s.length + 1) { todo := s } = some c ∧ c.finish = scan o s :=
  Scanner.exists_rounds (Nat.lt_succ_self _)

end TemplateTidy.Item
