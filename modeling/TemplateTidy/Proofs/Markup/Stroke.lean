import TemplateTidy.Proofs.Marker.Symbol
import TemplateTidy.Proofs.Markup.Replay
import TemplateTidy.Proofs.Markup.Scan
import TemplateTidy.Proofs.Text.Typeset

/-!
# Strokes of markup

The layout does not print item by item. A text is printed word by word, and an
element whose content is not read as markup comes out in one piece. What is printed
in one go, and each gap between two such things, is a *stroke*.

Strokes can be read back: put together they are scanned as the items they stand for,
if each of them is read as itself whatever follows. Of a word that means that no
markup begins in it, not even together with what comes behind the word; since that is
white space or a bracket, it can be told from the word alone.

Main results: `Stroke.scan_textOf`, `Stroke.foldl_items`, `Stroke.foldl_strokes`.
-/

namespace TemplateTidy

open Chunk

/-! ## Where markup begins -/

/-- No letter is white space. -/
theorem isAlpha_eq_false_of_isBlank {c : Char} (h : isBlank c = true) : c.isAlpha = false := by
  have hneither : (c.isAlpha || c.isDigit) = false := isAlphanum_of_isBlank h
  exact (Bool.or_eq_false_iff.mp hneither).1

namespace Item

/-- Markup begins at the front of the text. -/
def opens (o : MarkupOptions) : Text → Bool
  | '<' :: c :: rest =>
    c == '!' || (c == '?' && o.templates) || c.isAlpha || (c == '/' && rest.head?.any Char.isAlpha)
  | _ => false

/-- **Nothing is read as markup exactly where none begins.** -/
theorem markup?_eq_none_iff {o : MarkupOptions} {s : Text} :
    markup? o s = none ↔ opens o s = false := by
  unfold markup?
  split
  · rename_i hcomment
    obtain ⟨rest, rfl⟩ := List.isPrefixOf_iff_prefix.mp hcomment
    simp [opens]
  · split
    · rename_i htemplate
      rw [Bool.and_eq_true] at htemplate
      obtain ⟨rest, rfl⟩ := List.isPrefixOf_iff_prefix.mp htemplate.2
      simp [opens, htemplate.1]
    · rename_i htemplate
      split
      · simp [opens]
      · have hslash : '/'.isAlpha = false := by decide
        simp [opens, hslash]
      · rename_i c rest hbang hslash _
        have hbang' : (c == '!') = false := beq_false_of_ne hbang
        -- of the cases of `opens` only the one for letters is left
        have hquery : (c == '?' && o.templates) = false := by
          by_contra h
          simp only [Bool.not_eq_false, Bool.and_eq_true, beq_iff_eq] at h
          exact htemplate (by simp [h.1, h.2])
        have hend : (c == '/' && rest.head?.any Char.isAlpha) = false := by
          by_contra h
          simp only [Bool.not_eq_false, Bool.and_eq_true, beq_iff_eq] at h
          cases rest with
          | nil => exact Bool.noConfusion h.2
          | cons d rest => exact hslash d rest h.1 rfl
        simp [opens, hbang', hquery, hend]
      · -- without a bracket in front nothing begins
        rename_i hother
        unfold opens
        split
        · exact absurd rfl (hother _ _)
        · simp

/-- Whether markup begins is seen at the front of the text. -/
theorem opens_append {o : MarkupOptions} {s : Text} (h : opens o s = true) (t : Text) :
    opens o (s ++ t) = true := by
  unfold opens at h
  split at h
  · rename_i c rest
    have hhead : rest.head?.any Char.isAlpha = true →
        (rest ++ t).head?.any Char.isAlpha = true := by
      cases rest with
      | nil => exact fun h => Bool.noConfusion h
      | cons d rest => exact id
    simp only [Bool.or_eq_true, Bool.and_eq_true] at h
    simp only [List.cons_append, opens, Bool.or_eq_true, Bool.and_eq_true]
    exact h.imp_right fun h => ⟨h.1, hhead h.2⟩
  · cases h

/-- White space and brackets do not continue the beginning of markup. -/
theorem opens_of_append {o : MarkupOptions} {s t : Text} (hs : s ≠ [])
    (ht : ∀ c, t.head? = some c → c = '<' ∨ isBlank c = true) (h : opens o (s ++ t) = true) :
    opens o s = true := by
  -- what follows begins with a bracket or with white space
  have hnext : ∀ c, t.head? = some c → c ≠ '!' ∧ c ≠ '?' ∧ c ≠ '/' ∧ c.isAlpha = false := by
    intro c hc
    rcases ht c hc with rfl | hblank
    · decide
    · refine ⟨?_, ?_, ?_, isAlpha_eq_false_of_isBlank hblank⟩ <;>
      · rintro rfl
        exact absurd hblank (by decide)
  obtain ⟨c, s, rfl⟩ := List.exists_cons_of_ne_nil hs
  cases s with
  | nil =>
    -- nothing that follows the bracket makes it the beginning of markup
    cases t with
    | nil => exact absurd h (by simp [opens])
    | cons d t =>
      obtain ⟨hbang, hquery, hslash, halpha⟩ := hnext d rfl
      unfold opens at h
      split at h
      · rename_i heq
        obtain ⟨-, rfl, rfl⟩ := by simpa using heq
        simp [hbang, hquery, hslash, halpha] at h
      · cases h
  | cons d s =>
    unfold opens at h ⊢
    split at h
    · rename_i d' rest heq
      obtain ⟨rfl, rfl, rfl⟩ := by simpa using heq
      -- nor does it give a slash the letter that an end tag needs
      have hhead : (s ++ t).head?.any Char.isAlpha = true → s.head?.any Char.isAlpha = true := by
        cases s with
        | nil =>
          cases t with
          | nil => exact id
          | cons e t =>
            intro halpha
            exact absurd halpha (by simp [(hnext e rfl).2.2.2])
        | cons e s => exact id
      simp only [Bool.or_eq_true, Bool.and_eq_true] at h ⊢
      exact h.imp_right fun h => ⟨h.1, hhead h.2⟩
    · cases h

/-- No markup begins in the text. -/
def Calm (o : MarkupOptions) (s : Text) : Prop :=
  ∀ t, t ≠ [] → t <:+ s → opens o t = false

/-- The end of a calm text is calm. -/
theorem Calm.of_suffix {o : MarkupOptions} {s t : Text} (h : Calm o s) (ht : t <:+ s) : Calm o t :=
  fun u hu hsuffix => h u hu (hsuffix.trans ht)

/-- A front part of a text has no markup in it if the text has none. -/
theorem Calm.left_of_append {o : MarkupOptions} {s t : Text} (h : Calm o (s ++ t)) : Calm o s := by
  rintro u hu ⟨v, rfl⟩
  by_contra hopens
  rw [Bool.not_eq_false] at hopens
  have hwhole := h (u ++ t) (by simp [hu]) ⟨v, by simp⟩
  rw [opens_append hopens t] at hwhole
  exact Bool.noConfusion hwhole

/-- Markup begins with an opening bracket. -/
theorem opens_eq_false_of_head {o : MarkupOptions} {c : Char} (hc : c ≠ '<') (s : Text) :
    opens o (c :: s) = false := by
  unfold opens
  split
  · rename_i heq
    exact absurd (List.cons.inj heq).1 hc
  · rfl

/-- The empty text is calm. -/
theorem calm_nil (o : MarkupOptions) : Calm o [] := by
  intro t ht hsuffix
  exact absurd (List.suffix_nil.mp hsuffix) ht

/-- A character in front leaves a text calm if no markup begins there. -/
theorem calm_cons {o : MarkupOptions} {c : Char} {s : Text} (hc : opens o (c :: s) = false)
    (hs : Calm o s) : Calm o (c :: s) := by
  intro t ht hsuffix
  rcases List.suffix_cons_iff.mp hsuffix with rfl | hsuffix
  · exact hc
  · exact hs t ht hsuffix

/-- So does a text without opening brackets. -/
theorem calm_append {o : MarkupOptions} {s t : Text} (hs : ∀ c ∈ s, c ≠ '<') (ht : Calm o t) :
    Calm o (s ++ t) := by
  induction s with
  | nil => exact ht
  | cons c s ih =>
    obtain ⟨hc, hs⟩ := List.forall_mem_cons.mp hs
    exact calm_cons (opens_eq_false_of_head hc _) (ih hs)

/-! ## Scanning text -/

/-- Characters may be put in front of items bit by bit. -/
theorem consText_consText (s t : Text) (items : List Item) :
    consText s (consText t items) = consText (s ++ t) items := by
  cases items with
  | nil => rfl
  | cons i items => cases i <;> simp [consText]

/-- Where no markup begins, a character belongs to the text. -/
theorem scan_cons {o : MarkupOptions} {c : Char} {s : Text} (h : opens o (c :: s) = false) :
    scan o (c :: s) = consText [c] (scan o s) := by
  have hnone : markup? o (c :: s) = none := markup?_eq_none_iff.mpr h
  rw [scan, hnone]
  dsimp only
  cases s with
  | nil => rfl
  | cons d s =>
    by_cases hd : d = '<'
    · subst hd
      rfl
    · -- the scanner passes over the next character in the same go
      have hnone' : markup? o (d :: s) = none :=
        markup?_eq_none_iff.mpr (opens_eq_false_of_head hd s)
      rw [scan.eq_def o (d :: s)]
      dsimp only
      rw [hnone', List.takeWhile_cons_of_pos (by simpa using hd), List.length_cons,
        List.drop_succ_cons, consText_consText]
      rfl

/-- A text in which no markup begins, not even with what follows it, is scanned as text. -/
theorem scan_append {o : MarkupOptions} {s t : Text} (hs : s ≠ [])
    (h : ∀ u, u ≠ [] → u <:+ s → opens o (u ++ t) = false) :
    scan o (s ++ t) = consText s (scan o t) := by
  induction s with
  | nil => exact absurd rfl hs
  | cons c s ih =>
    have hc := h (c :: s) (List.cons_ne_nil c s) (List.suffix_refl _)
    rw [List.cons_append] at hc ⊢
    rw [scan_cons hc]
    by_cases hnil : s = []
    · rw [hnil]
      rfl
    · rw [ih hnil fun u hu hsuffix => h u hu (hsuffix.trans (List.suffix_cons c s)),
        consText_consText]
      rfl

/-- Items that are read at the front of a text are the first ones of the scan. -/
theorem scan_markup {o : MarkupOptions} {s t : Text} {items : List Item}
    (h : markup? o (s ++ t) = some items) (hs : rawOf items = s) :
    scan o (s ++ t) = items ++ scan o t := by
  have hfronts := fronts_markup? h
  have hne := hfronts.ne_nil
  rw [hs] at hne
  obtain ⟨c, s, rfl⟩ := List.exists_cons_of_ne_nil hne
  rw [List.cons_append] at h ⊢ hfronts
  rw [scan, h]
  dsimp only
  rw [drop_rawOf hfronts, hs]
  simp

/-- Characters in front join the first item if that is a text, and begin a text otherwise. -/
theorem exists_consText (s : Text) (its : List Item) : ∃ u rest,
    consText s its = .text (s ++ u) :: rest ∧
      ((its = .text u :: rest) ∨ (u = [] ∧ its = rest ∧ ∀ raw, its.head? ≠ some (.text raw))) := by
  unfold consText
  split
  · exact ⟨_, _, rfl, .inl rfl⟩
  · rename_i hother
    refine ⟨[], its, by simp, .inr ⟨rfl, rfl, fun raw hraw => ?_⟩⟩
    obtain ⟨more, hmore⟩ := List.head?_eq_some_iff.mp hraw
    exact hother raw more hmore

/-- No markup begins in a text of a scan. -/
theorem calm_of_mem_scan {o : MarkupOptions} {s raw : Text} (h : text raw ∈ scan o s) :
    Calm o raw := by
  fun_induction scan o s generalizing raw with
  | case1 => cases h
  | case2 c cs items hitems ih =>
    rcases List.mem_append.mp h with hmem | hmem
    · -- what begins with markup is no text
      cases fronts_markup? hitems with
      | single _ hmarkup =>
        rw [← List.mem_singleton.mp hmem] at hmarkup
        cases hmarkup
      | content => simp at hmem
    · exact ih hmem
  | case3 c cs hnone run =>
    rename_i ih
    obtain ⟨u, rest, hcons, hscan⟩ := exists_consText (c :: run) (scan o (cs.drop run.length))
    rw [hcons] at h
    rcases List.mem_cons.mp h with heq | hmem
    · rw [text.inj heq]
      -- the text is passed over up to a bracket, and joined to what is scanned from there
      have hu : Calm o u ∧ ∃ v, cs.drop run.length = u ++ v := by
        rcases hscan with hscan | ⟨rfl, -⟩
        · refine ⟨ih (by rw [hscan]; exact List.mem_cons_self ..), rawOf rest, ?_⟩
          rw [← rawOf_scan o (cs.drop run.length), hscan]
          rfl
        · exact ⟨calm_nil o, cs.drop run.length, rfl⟩
      obtain ⟨hcalm, v, hv⟩ := hu
      have hcs : cs = run ++ u ++ v := by
        rw [List.append_assoc, ← hv]
        exact (List.prefix_iff_eq_append.mp (List.takeWhile_prefix _)).symm
      -- nothing begins at the character itself, since nothing was read there
      have hfront : opens o (c :: (run ++ u)) = false := by
        by_contra hopens
        rw [Bool.not_eq_false] at hopens
        have hwhole := opens_append hopens v
        rw [List.cons_append, ← hcs, markup?_eq_none_iff.mp hnone] at hwhole
        exact Bool.noConfusion hwhole
      refine calm_cons hfront (calm_append ?_ hcalm)
      intro d hd
      simpa using List.mem_takeWhile_imp hd
    · refine ih ?_
      rcases hscan with hscan | ⟨-, hscan, -⟩
      · rw [hscan]
        exact List.mem_cons_of_mem _ hmem
      · rwa [hscan]

/-- Two texts never follow each other. -/
def Apart : List Item → Prop
  | [] => True
  | text _ :: rest => (∀ raw, rest.head? ≠ some (text raw)) ∧ Apart rest
  | _ :: rest => Apart rest

/-- Markup may stand in front of anything. -/
theorem apart_cons {i : Item} (hi : ∀ raw, i ≠ text raw) {rest : List Item} (h : Apart rest) :
    Apart (i :: rest) := by
  cases i with
  | text raw => exact absurd rfl (hi raw)
  | _ => exact h

/-- What is left behind an item has no two texts in a row either. -/
theorem Apart.tail {i : Item} {rest : List Item} (h : Apart (i :: rest)) : Apart rest := by
  cases i with
  | text raw => exact h.2
  | _ => exact h

/-- **The scan never yields two texts in a row.** -/
theorem apart_scan (o : MarkupOptions) (s : Text) : Apart (scan o s) := by
  fun_induction scan o s with
  | case1 => trivial
  | case2 c cs items hitems ih =>
    cases fronts_markup? hitems with
    | single _ hmarkup =>
      refine apart_cons (fun raw hraw => ?_) ih
      rw [hraw] at hmarkup
      cases hmarkup
    | content => exact ih
  | case3 c cs hnone run =>
    rename_i ih
    -- a text that follows is taken into this one, so the two never stand side by side
    obtain ⟨u, rest, hcons, hscan⟩ := exists_consText (c :: run) (scan o (cs.drop run.length))
    rw [hcons]
    rcases hscan with hscan | ⟨-, hscan, hother⟩
    · rw [hscan] at ih
      exact ih
    · rw [hscan] at ih hother
      exact ⟨hother, ih⟩

/-- Every item of the scan is formed. -/
theorem formed_of_mem_scan {o : MarkupOptions} {s : Text} {i : Item} (h : i ∈ scan o s) :
    i.Formed := by
  obtain ⟨before, after, hsplit⟩ := List.append_of_mem h
  have hfollows := follows_scan o (s := s) (.inl rfl)
  rw [hsplit] at hfollows
  exact hfollows.at.1

/-- Only content is read behind something else, and that is the tag that it follows. -/
theorem Fronts.before_eq {s : Text} {done todo : List Item} {i : Item}
    (h : Fronts s (done ++ i :: todo)) :
    done = [] ∨ ∃ tag content name,
      done = [startTag tag] ∧ i = body content name ∧ todo = [] := by
  generalize hitems : done ++ i :: todo = items at h
  cases h with
  | single =>
    obtain ⟨hdone, -⟩ | ⟨-, hrest⟩ := List.append_eq_singleton_iff.mp hitems
    · exact .inl hdone
    · cases hrest
  | content =>
    match done, hitems with
    | [], _ => exact .inl rfl
    | [j], hitems =>
      obtain ⟨rfl, hrest⟩ := List.cons.inj hitems
      obtain ⟨rfl, rfl⟩ := List.cons.inj hrest
      exact .inr ⟨_, _, _, rfl, rfl, rfl⟩
    | j :: k :: done, hitems => simp at hitems

/-- An item that is no text is one of those that are read together where they stand. -/
theorem exists_markup?_of_scan {o : MarkupOptions} {s : Text} {before after : List Item}
    {i : Item} (h : scan o s = before ++ i :: after) (hi : ∀ raw, i ≠ text raw) :
    ∃ front done todo rest, before = front ++ done ∧ after = todo ++ rest ∧
      markup? o (rawOf (done ++ i :: after)) = some (done ++ i :: todo) := by
  fun_induction scan o s generalizing before with
  | case1 => simp at h
  | case2 c cs items hitems ih =>
    have hfronts := fronts_markup? hitems
    rcases List.append_eq_append_iff.mp h with ⟨more, rfl, hmore⟩ | ⟨more, hitems', hmore⟩
    · -- the item is read later
      obtain ⟨front, done, todo, rest, rfl, hread⟩ := ih hmore
      exact ⟨items ++ front, done, todo, rest, (List.append_assoc ..).symm, hread⟩
    · cases more with
      -- the items read so far end before the item
      | nil =>
        have hnext : scan o (cs.drop ((rawOf items).length - 1)) = [] ++ i :: after := hmore.symm
        obtain ⟨front, done, todo, rest, hnil, hread⟩ := ih hnext
        rw [List.append_nil] at hitems'
        obtain ⟨rfl, rfl⟩ := List.append_eq_nil_iff.mp hnil.symm
        exact ⟨before, [], todo, rest, (List.append_nil _).symm, hread⟩
      -- the item is among those read here
      | cons j todo =>
        obtain ⟨rfl, rfl⟩ := List.cons.inj hmore
        refine ⟨[], before, todo, _, rfl, rfl, ?_⟩
        rw [← hitems', ← hitems, ← h]
        congr 1
        rw [drop_rawOf hfronts, rawOf, List.flatMap_append]
        exact (congrArg (rawOf items ++ ·) (rawOf_scan o _)).trans hfronts.raw_prefix
  | case3 c cs hnone run =>
    rename_i ih
    obtain ⟨u, more, hcons, hscan⟩ := exists_consText (c :: run) (scan o (cs.drop run.length))
    rw [hcons] at h
    cases before with
    | nil => exact absurd (List.cons.inj h).1.symm (hi _)
    | cons j before =>
      have hmore : more = before ++ i :: after := List.tail_eq_of_cons_eq h
      rcases hscan with hscan | ⟨-, hscan, -⟩
      · have hbefore : scan o (cs.drop run.length) = (text u :: before) ++ i :: after :=
          hscan.trans (congrArg _ hmore)
        obtain ⟨front, done, todo, rest, hfront, hafter, hread⟩ := ih hbefore
        cases front with
        | nil =>
          -- nothing is read together with a text
          rw [List.nil_append] at hfront
          rw [← hfront] at hread
          rcases (fronts_markup? hread).before_eq with hdone | ⟨_, _, _, hdone, -⟩
          · cases hdone
          · cases hdone
        | cons k front =>
          obtain ⟨-, rfl⟩ := List.cons.inj hfront
          exact ⟨j :: front, done, todo, rest, rfl, hafter, hread⟩
      · obtain ⟨front, done, todo, rest, rfl, hread⟩ := ih (hscan.trans hmore)
        exact ⟨j :: front, done, todo, rest, rfl, hread⟩

end Item

/-! ## Strokes -/

/-- A stroke of markup: what the layout prints in one go, or a gap before it. -/
inductive Stroke where
  | gap (blank : Text)
  | word (letters : Text)
  /-- Markup that is an item by itself. -/
  | item (i : Item)
  /-- A whole element whose content is not read as markup. -/
  | element (tag : StartTag) (content close : Text)
  deriving DecidableEq

namespace Stroke

/-- The characters of a stroke. -/
def text : Stroke → Text
  | gap s | word s => s
  | item i => i.raw
  | element tag content close => tag.raw ++ content ++ close

/-- The characters of several strokes. -/
def textOf (strokes : List Stroke) : Text :=
  strokes.flatMap text

@[simp] theorem textOf_nil : textOf [] = [] := rfl

@[simp] theorem textOf_cons (x : Stroke) (strokes : List Stroke) :
    textOf (x :: strokes) = x.text ++ textOf strokes := rfl

@[simp] theorem textOf_append (a b : List Stroke) : textOf (a ++ b) = textOf a ++ textOf b :=
  List.flatMap_append

/-- The items of an element whose content is not read as markup. -/
def elementItems (tag : StartTag) (content close : Text) : List Item :=
  .startTag tag :: (if content = [] then [] else [.body content tag.name]) ++
    [.endTag close tag.name]

/-- The items that strokes stand for. -/
def items : List Stroke → List Item
  | [] => []
  | gap s :: rest | word s :: rest => Item.consText s (items rest)
  | item i :: rest => i :: items rest
  | element tag content close :: rest => elementItems tag content close ++ items rest

/-- Prints a stroke. -/
def step (o : MarkupOptions) (l : Layout) : Stroke → Layout
  | gap s => l.print (·.noteGap s)
  | word s => l.print (·.inline o s false true)
  | item i => l.step o i
  | element tag content close => l.onElement o tag content close

/-- Gaps and words take turns, and items are markup. -/
def Divided : List Stroke → Prop
  | [] => True
  | gap s :: rest => s.Blank ∧ s ≠ [] ∧ (∀ t, rest.head? ≠ some (gap t)) ∧ Divided rest
  | word s :: rest =>
    (∀ c ∈ s, isBlank c = false) ∧ s ≠ [] ∧ (∀ t, rest.head? ≠ some (word t)) ∧ Divided rest
  | item i :: rest => i.isMarkup = true ∧ Divided rest
  | element _ _ _ :: rest => Divided rest

/-! ## Printing strokes -/

theorem ofText_cons (c : Char) (s : Text) :
    Chunk.ofText (c :: s) = Chunk.cons c (Chunk.ofText s) := rfl

/-- The first chunk of a text is a gap or a word, as its first character is. -/
theorem exists_ofText_cons (c : Char) (s : Text) : ∃ t rest,
    Chunk.ofText (c :: s) = (if isBlank c then .gap t else .word t) :: rest := by
  rw [ofText_cons]
  cases hc : isBlank c with
  | true =>
    match Chunk.ofText s with
    | [] => exact ⟨[c], [], by simp [Chunk.cons, hc]⟩
    | .gap t :: rest => exact ⟨c :: t, rest, by simp [Chunk.cons, hc]⟩
    | .word t :: rest => exact ⟨[c], .word t :: rest, by simp [Chunk.cons, hc]⟩
  | false =>
    match Chunk.ofText s with
    | [] => exact ⟨[c], [], by simp [Chunk.cons, hc]⟩
    | .gap t :: rest => exact ⟨[c], .gap t :: rest, by simp [Chunk.cons, hc]⟩
    | .word t :: rest => exact ⟨c :: t, rest, by simp [Chunk.cons, hc]⟩

/-- A gap before something else is a chunk of its own. -/
theorem ofText_gap {s t : Text} (hs : s.Blank) (hne : s ≠ [])
    (ht : ∀ c, t.head? = some c → isBlank c = false) :
    Chunk.ofText (s ++ t) = .gap s :: Chunk.ofText t := by
  induction s with
  | nil => exact absurd rfl hne
  | cons c s ih =>
    obtain ⟨hc, hs⟩ := Text.blank_cons.mp hs
    rw [List.cons_append, ofText_cons]
    cases s with
    | nil =>
      cases t with
      | nil => simp [Chunk.ofText, Chunk.cons, hc]
      | cons d t =>
        obtain ⟨w, rest, hword⟩ := exists_ofText_cons d t
        rw [ht d rfl, if_neg Bool.false_ne_true] at hword
        rw [List.nil_append, hword, Chunk.cons, if_pos hc]
    | cons d s =>
      rw [ih hs (List.cons_ne_nil d s), Chunk.cons, if_pos hc]

/-- A word before something else is a chunk of its own. -/
theorem ofText_word {s t : Text} (hs : ∀ c ∈ s, isBlank c = false) (hne : s ≠ [])
    (ht : ∀ c, t.head? = some c → isBlank c = true) :
    Chunk.ofText (s ++ t) = .word s :: Chunk.ofText t := by
  induction s with
  | nil => exact absurd rfl hne
  | cons c s ih =>
    obtain ⟨hc, hs⟩ := List.forall_mem_cons.mp hs
    rw [List.cons_append, ofText_cons]
    cases s with
    | nil =>
      cases t with
      | nil => simp [Chunk.ofText, Chunk.cons, hc]
      | cons d t =>
        obtain ⟨g, rest, hgap⟩ := exists_ofText_cons d t
        rw [ht d rfl, if_pos rfl] at hgap
        rw [List.nil_append, hgap, Chunk.cons, if_neg (by simp [hc])]
    | cons d s =>
      rw [ih hs (List.cons_ne_nil d s), Chunk.cons, if_neg (by simp [hc])]

/-- If the items of strokes begin with a text, that text begins with the first stroke. -/
theorem head_of_items {strokes : List Stroke} (h : Divided strokes) {u : Text} {rest : List Item}
    (hitems : items strokes = .text u :: rest) {c : Char} (hc : u.head? = some c) :
    (isBlank c = true ∧ ∃ s more, strokes = gap s :: more) ∨
      (isBlank c = false ∧ ∃ s more, strokes = word s :: more) := by
  have hhead : ∀ {s : Text} {its : List Item}, s ≠ [] →
      Item.consText s its = .text u :: rest → s.head? = some c := by
    intro s its hne hcons
    obtain ⟨v, more, heq, -⟩ := Item.exists_consText s its
    obtain ⟨d, s, rfl⟩ := List.exists_cons_of_ne_nil hne
    rw [heq] at hcons
    obtain ⟨rfl, -⟩ := by simpa using hcons
    exact hc
  match strokes, h, hitems with
  | gap s :: more, ⟨hblank, hne, _⟩, hitems =>
    have hs := hhead hne hitems
    exact .inl ⟨hblank.of_mem (List.mem_of_mem_head? hs), s, more, rfl⟩
  | word s :: more, ⟨hletters, hne, _⟩, hitems =>
    have hs := hhead hne hitems
    exact .inr ⟨hletters c (List.mem_of_mem_head? hs), s, more, rfl⟩
  | item i :: more, ⟨hmarkup, _⟩, hitems =>
    rw [(List.cons.inj hitems).1] at hmarkup
    cases hmarkup
  | element tag content close :: more, _, hitems => cases (List.cons.inj hitems).1

/-- Behind a gap there is another chunk. -/
theorem ofText_items_gap {s : Text} {strokes : List Stroke} (h : Divided (gap s :: strokes))
    {u : Text} (hu : (∃ rest, items strokes = .text u :: rest) ∨ u = []) :
    Chunk.ofText (s ++ u) = .gap s :: Chunk.ofText u := by
  obtain ⟨hblank, hne, hnext, hrest⟩ := h
  refine ofText_gap hblank hne fun c hc => ?_
  rcases hu with ⟨rest, hu⟩ | rfl
  · rcases head_of_items hrest hu hc with ⟨-, t, more, rfl⟩ | ⟨hletter, -⟩
    · exact absurd rfl (hnext t)
    · exact hletter
  · cases hc

/-- Behind a word there is another chunk. -/
theorem ofText_items_word {s : Text} {strokes : List Stroke} (h : Divided (word s :: strokes))
    {u : Text} (hu : (∃ rest, items strokes = .text u :: rest) ∨ u = []) :
    Chunk.ofText (s ++ u) = .word s :: Chunk.ofText u := by
  obtain ⟨hletters, hne, hnext, hrest⟩ := h
  refine ofText_word hletters hne fun c hc => ?_
  rcases hu with ⟨rest, hu⟩ | rfl
  · rcases head_of_items hrest hu hc with ⟨hgap, -⟩ | ⟨-, t, more, rfl⟩
    · exact hgap
    · exact absurd rfl (hnext t)
  · cases hc

/-- The words of a text among the items of strokes are strokes. -/
theorem mem_of_items {strokes : List Stroke} (h : Divided strokes) {u : Text} {rest : List Item}
    (hitems : items strokes = .text u :: rest) {w : Text} (hw : .word w ∈ Chunk.ofText u) :
    word w ∈ strokes := by
  induction strokes generalizing u rest with
  | nil => cases hitems
  | cons x strokes ih =>
    cases x with
    | gap s =>
      obtain ⟨v, more, hcons, hmore⟩ := Item.exists_consText s (items strokes)
      obtain ⟨hu, rfl⟩ := List.cons.inj (hcons.symm.trans hitems)
      obtain rfl := Item.text.inj hu
      -- the gap is a chunk of its own, so the word is one of the chunks behind it
      rw [ofText_items_gap h (hmore.imp (fun h => ⟨more, h⟩) fun h => h.1)] at hw
      rcases hmore with hmore | ⟨rfl, -⟩
      · exact List.mem_cons_of_mem _ (ih h.2.2.2 hmore (by simpa using hw))
      · simp [Chunk.ofText] at hw
    | word s =>
      obtain ⟨v, more, hcons, hmore⟩ := Item.exists_consText s (items strokes)
      obtain ⟨hu, rfl⟩ := List.cons.inj (hcons.symm.trans hitems)
      obtain rfl := Item.text.inj hu
      rw [ofText_items_word h (hmore.imp (fun h => ⟨more, h⟩) fun h => h.1)] at hw
      rcases List.mem_cons.mp hw with hw | hw
      · rw [Chunk.word.inj hw]
        exact List.mem_cons_self ..
      · rcases hmore with hmore | ⟨rfl, -⟩
        · exact List.mem_cons_of_mem _ (ih h.2.2.2 hmore hw)
        · cases hw
    | item i =>
      have hmarkup : i.isMarkup = true := h.1
      rw [(List.cons.inj hitems).1] at hmarkup
      cases hmarkup
    | element tag content close => cases (List.cons.inj hitems).1

/-- A text is printed chunk by chunk. -/
def stepChunk (o : MarkupOptions) (l : Layout) : Chunk → Layout
  | .gap s => l.print (·.noteGap s)
  | .word s => l.print (·.inline o s false true)

/-- No tag of a handlebars block begins in the word, or such tags mean nothing. -/
def isBraceless (o : MarkupOptions) (s : Text) : Bool :=
  !o.indentHandlebars || !Text.occursIn "\x7b\x7b".toList s

/-- A letter begins a word. -/
theorem exists_ofText_letter {c : Char} (hc : isBlank c = false) (s : Text) :
    ∃ t rest, Chunk.ofText (c :: s) = .word (c :: t) :: rest := by
  rw [ofText_cons]
  match Chunk.ofText s with
  | [] => exact ⟨[], [], by simp [Chunk.cons, hc]⟩
  | .gap t :: rest => exact ⟨[], .gap t :: rest, by simp [Chunk.cons, hc]⟩
  | .word t :: rest => exact ⟨t, rest, by simp [Chunk.cons, hc]⟩

/-- A word is part of a word when a character is put in front of the text. -/
theorem exists_word_of_mem {w : Text} {chunks : List Chunk} (h : .word w ∈ chunks) (c : Char) :
    ∃ v, .word v ∈ Chunk.cons c chunks ∧ w <:+ v := by
  unfold Chunk.cons
  split
  · rename_i s rest
    have hrest : .word w ∈ rest := by simpa using h
    split
    · exact ⟨w, List.mem_cons_of_mem _ hrest, List.suffix_refl w⟩
    · exact ⟨w, by simp [hrest], List.suffix_refl w⟩
  · rename_i s rest
    split
    · exact ⟨w, List.mem_cons_of_mem _ h, List.suffix_refl w⟩
    · rcases List.mem_cons.mp h with hw | hrest
      · rw [Chunk.word.inj hw]
        exact ⟨c :: s, List.mem_cons_self .., List.suffix_cons c s⟩
      · exact ⟨w, List.mem_cons_of_mem _ hrest, List.suffix_refl w⟩
  · cases h

/-- Two braces next to each other stand in one word. -/
theorem exists_word_of_braces {raw : Text} (h : "\x7b\x7b".toList <:+: raw) :
    ∃ w, .word w ∈ Chunk.ofText raw ∧ "\x7b\x7b".toList <:+: w := by
  have hbrace : isBlank '\x7b' = false := by decide
  induction raw with
  | nil => exact absurd (List.infix_nil.mp h) (by decide)
  | cons c raw ih =>
    rcases List.infix_cons_iff.mp h with ⟨rest, hrest⟩ | h
    · -- the first word begins with both
      obtain ⟨rfl, rfl⟩ : '\x7b' = c ∧ '\x7b' :: rest = raw := by simpa using hrest
      obtain ⟨t, more, hmore⟩ := exists_ofText_letter hbrace rest
      refine ⟨'\x7b' :: '\x7b' :: t, ?_, ⟨[], t, rfl⟩⟩
      rw [ofText_cons, hmore, Chunk.cons, if_neg (by simp [hbrace])]
      exact List.mem_cons_self ..
    · obtain ⟨w, hw, hbraces⟩ := ih h
      obtain ⟨v, hv, hsuffix⟩ := exists_word_of_mem hw c
      exact ⟨v, hv, hbraces.trans hsuffix.isInfix⟩

/-- A text without tags of handlebars blocks is printed chunk by chunk. -/
theorem onText_eq {o : MarkupOptions} {raw : Text}
    (h : ∀ w, .word w ∈ Chunk.ofText raw → isBraceless o w = true) (l : Layout) :
    l.onText o raw = (Chunk.ofText raw).foldl (stepChunk o) l := by
  rw [Layout.onText]
  split
  · rename_i hblocks
    -- a tag would begin with two braces
    have hnone : Text.search? Layout.blockTag raw = none := by
      by_contra hfound
      obtain ⟨⟨i, n⟩, hsearch⟩ := Option.ne_none_iff_exists'.mp hfound
      have htag := Text.search?_spec hsearch
      have hbraces : "\x7b\x7b".toList <+: raw.drop i := by
        unfold Layout.blockTag at htag
        split at htag
        · rename_i c more heq
          exact ⟨c :: more, heq.symm⟩
        · cases htag
      obtain ⟨w, hw, hinfix⟩ :=
        exists_word_of_braces (hbraces.isInfix.trans (List.drop_suffix i raw).isInfix)
      have hbare := h w hw
      rw [isBraceless, hblocks, (Text.occursIn_iff _ _).mpr hinfix] at hbare
      cases hbare
    rw [Layout.blocks, hnone]
    rfl
  · rfl

/-- A text in front of items is printed before them. -/
theorem foldl_consText {o : MarkupOptions} {s : Text} {x : Chunk} {its : List Item}
    (hchunk : ∀ u, ((∃ rest, its = .text u :: rest) ∨ u = []) →
      Chunk.ofText (s ++ u) = x :: Chunk.ofText u)
    (hx : ∀ w, x = .word w → isBraceless o w = true)
    (hits : ∀ u rest, its = .text u :: rest →
      ∀ w, .word w ∈ Chunk.ofText u → isBraceless o w = true)
    (l : Layout) :
    (Item.consText s its).foldl (Layout.step o) l =
      its.foldl (Layout.step o) (stepChunk o l x) := by
  have hall : ∀ u, (∀ w, .word w ∈ Chunk.ofText u → isBraceless o w = true) →
      Chunk.ofText (s ++ u) = x :: Chunk.ofText u →
      ∀ w, .word w ∈ Chunk.ofText (s ++ u) → isBraceless o w = true := by
    intro u hu heq w hw
    rw [heq] at hw
    rcases List.mem_cons.mp hw with hw | hw
    · exact hx w hw.symm
    · exact hu w hw
  -- the items begin with a text that `s` is joined to, or `s` becomes a text of its own
  obtain ⟨u, rest, hcons, heq | ⟨rfl, rfl, -⟩⟩ := Item.exists_consText s its
  · have hu := hits u rest heq
    have hsplit := hchunk u (.inl ⟨rest, heq⟩)
    rw [hcons, heq, List.foldl_cons, List.foldl_cons, Layout.step, Layout.step,
      onText_eq (hall u hu hsplit), onText_eq hu, hsplit, List.foldl_cons]
  · have hsplit := hchunk [] (.inr rfl)
    rw [hcons, List.foldl_cons, Layout.step, onText_eq (hall [] (fun _ h => nomatch h) hsplit),
      hsplit]
    rfl

/-- **Items are printed stroke by stroke.** -/
theorem foldl_items {o : MarkupOptions} {strokes : List Stroke} (h : Divided strokes)
    (hbare : ∀ w, word w ∈ strokes → isBraceless o w = true) (l : Layout) :
    (items strokes).foldl (Layout.step o) l = strokes.foldl (step o) l := by
  -- gaps and words are parts of one text item; the others are items by themselves
  induction strokes generalizing l with
  | nil => rfl
  | cons x strokes ih =>
    have hrest : ∀ w, word w ∈ strokes → isBraceless o w = true :=
      fun w hw => hbare w (List.mem_cons_of_mem _ hw)
    cases x with
    | gap s =>
      rw [items, foldl_consText (x := .gap s) (fun u hu => ofText_items_gap h hu)
        (fun _ h => nomatch h) (fun u rest hu w hw => hrest w (mem_of_items h.2.2.2 hu hw)),
        ih h.2.2.2 hrest]
      rfl
    | word s =>
      have hs : ∀ w, .word s = Chunk.word w → isBraceless o w = true :=
        fun w hw => hbare w (Chunk.word.inj hw ▸ List.mem_cons_self ..)
      rw [items, foldl_consText (x := .word s) (fun u hu => ofText_items_word h hu) hs
        (fun u rest hu w hw => hrest w (mem_of_items h.2.2.2 hu hw)), ih h.2.2.2 hrest]
      rfl
    | item i => exact ih h.2 hrest _
    | element tag content close =>
      rw [items, List.foldl_append, ih h hrest, List.foldl_cons]
      congr 1
      unfold elementItems
      split
      · rename_i hnil
        rw [hnil]
        rfl
      · rfl

/-! ## Reading strokes -/

/-- The stroke is read as itself, whatever follows. -/
def Sealed (o : MarkupOptions) : Stroke → Prop
  | gap _ => True
  | word s => Item.Calm o s ∧ isBraceless o s = true
  | item i => ∀ t, Item.scan o (i.raw ++ t) = i :: Item.scan o t
  | element tag content close => ∀ t, Item.scan o (tag.raw ++ content ++ close ++ t) =
      elementItems tag content close ++ Item.scan o t

/-- Markup that is read as itself begins with a bracket. -/
theorem head_of_sealed {o : MarkupOptions} {x : Stroke} (hx : x.Sealed o) :
    (∀ i, x = item i → i.isMarkup = true → x.text.head? = some '<') ∧
      (∀ tag content close, x = element tag content close → x.text.head? = some '<') := by
  constructor
  · rintro i rfl hmarkup
    have hscan : Item.scan o i.raw = [i] := by
      have hread := hx []
      rwa [List.append_nil, Item.scan] at hread
    have hformed : i.Formed := Item.formed_of_mem_scan (o := o) (s := i.raw) (by simp [hscan])
    exact hformed.head_of_isMarkup hmarkup
  · rintro tag content close rfl
    have hformed : (Item.startTag tag).Formed :=
      Item.formed_of_mem_scan (o := o) (s := tag.raw ++ content ++ close ++ []) (by
        rw [hx []]
        simp [elementItems])
    obtain ⟨c, r, hraw, -⟩ := hformed
    simp [text, hraw]

/-- Behind a word stands white space or a bracket. -/
theorem head_textOf {o : MarkupOptions} {strokes : List Stroke} (h : Divided strokes)
    (hsealed : ∀ x ∈ strokes, x.Sealed o) (hnext : ∀ s, strokes.head? ≠ some (word s)) {c : Char}
    (hc : (textOf strokes).head? = some c) : c = '<' ∨ isBlank c = true := by
  cases strokes with
  | nil => cases hc
  | cons x strokes =>
    have hx := head_of_sealed (hsealed x (List.mem_cons_self ..))
    cases x with
    | gap s =>
      obtain ⟨hblank, hne, -⟩ := h
      obtain ⟨d, s, rfl⟩ := List.exists_cons_of_ne_nil hne
      obtain rfl : d = c := Option.some.inj hc
      exact .inr (Text.blank_cons.mp hblank).1
    | word s => exact absurd rfl (hnext s)
    | item i =>
      obtain ⟨t, ht⟩ := List.head?_eq_some_iff.mp (hx.1 i rfl h.1)
      rw [textOf_cons, ht] at hc
      exact .inl (Option.some.inj hc).symm
    | element tag content close =>
      obtain ⟨t, ht⟩ := List.head?_eq_some_iff.mp (hx.2 tag content close rfl)
      rw [textOf_cons, ht] at hc
      exact .inl (Option.some.inj hc).symm

/-- **Strokes are read back as the items they stand for.** -/
theorem scan_textOf {o : MarkupOptions} {strokes : List Stroke} (h : Divided strokes)
    (hsealed : ∀ x ∈ strokes, x.Sealed o) : Item.scan o (textOf strokes) = items strokes := by
  induction strokes with
  | nil => rw [textOf_nil, Item.scan, items]
  | cons x strokes ih =>
    obtain ⟨hx, hrest⟩ := List.forall_mem_cons.mp hsealed
    rw [textOf_cons]
    cases x with
    | gap s =>
      obtain ⟨hblank, hne, -, hdivided⟩ := h
      rw [text, Item.scan_append hne, ih hdivided hrest, items]
      rintro u hu ⟨v, rfl⟩
      -- white space begins no markup
      obtain ⟨c, u, rfl⟩ := List.exists_cons_of_ne_nil hu
      have hc : isBlank c = true := hblank.of_mem (by simp)
      refine Item.opens_eq_false_of_head ?_ _
      rintro rfl
      exact absurd hc (by decide)
    | word s =>
      obtain ⟨-, hne, hnext, hdivided⟩ := h
      rw [text, Item.scan_append hne, ih hdivided hrest, items]
      intro u hu hsuffix
      by_contra hopens
      rw [Bool.not_eq_false] at hopens
      have hword := Item.opens_of_append hu (fun c hc => head_textOf hdivided hrest hnext hc) hopens
      rw [hx.1 u hu hsuffix] at hword
      exact Bool.noConfusion hword
    | item i => rw [text, hx, ih h.2 hrest, items]
    | element tag content close => rw [text, hx, ih h hrest, items]

/-! ## The strokes of items -/

/-- A chunk of a text is a stroke. -/
def ofChunk : Chunk → Stroke
  | .gap s => gap s
  | .word s => word s

end Stroke

/-- The content of the tag's element is not read as markup. -/
def StartTag.keepsContent (o : MarkupOptions) (tag : StartTag) : Bool :=
  !tag.void && (Element.isRaw tag.name || o.contentUnformatted.contains tag.name)

namespace Stroke

/-- The strokes of items. An element whose content is not read as markup is one stroke, if
its end tag follows. -/
def strokes (o : MarkupOptions) : List Item → List Stroke
  | [] => []
  | .text raw :: rest => (Chunk.ofText raw).map ofChunk ++ strokes o rest
  | .startTag tag :: .body content name :: .endTag close name' :: rest =>
    if name' = tag.name then element tag content close :: strokes o rest
    else item (.startTag tag) :: item (.body content name) :: item (.endTag close name') ::
      strokes o rest
  | .startTag tag :: .endTag close name :: rest =>
    if tag.keepsContent o ∧ name = tag.name then element tag [] close :: strokes o rest
    else item (.startTag tag) :: item (.endTag close name) :: strokes o rest
  | i :: rest => item i :: strokes o rest

/-- **Items are printed stroke by stroke.** -/
theorem foldl_strokes {o : MarkupOptions} {its : List Item}
    (hbare : ∀ w, word w ∈ strokes o its → isBraceless o w = true) (l : Layout) :
    its.foldl (Layout.step o) l = (strokes o its).foldl (step o) l := by
  fun_induction strokes o its generalizing l with
  | case1 => rfl
  | case2 raw rest ih =>
    have hraw : ∀ w, .word w ∈ Chunk.ofText raw → isBraceless o w = true :=
      fun w hw => hbare w (List.mem_append_left _ (List.mem_map.mpr ⟨.word w, hw, rfl⟩))
    rw [List.foldl_cons, ih fun w hw => hbare w (List.mem_append_right _ hw), List.foldl_append,
      Layout.step, onText_eq hraw, List.foldl_map]
    congr 2
    funext l x
    cases x <;> rfl
  -- an element is one stroke, and three steps of the layout
  | case3 tag content name close rest ih =>
    rw [List.foldl_cons, List.foldl_cons, List.foldl_cons, ih fun w hw => hbare w (by simp [hw])]
    rfl
  | case4 tag content name close name' rest hname ih =>
    rw [List.foldl_cons, List.foldl_cons, List.foldl_cons, ih fun w hw => hbare w (by simp [hw])]
    rfl
  -- without content it is two
  | case5 tag close name rest hkeeps ih =>
    rw [List.foldl_cons, List.foldl_cons, ih fun w hw => hbare w (by simp [hw]), hkeeps.2]
    rfl
  | case6 tag close name rest hkeeps ih =>
    rw [List.foldl_cons, List.foldl_cons, ih fun w hw => hbare w (by simp [hw])]
    rfl
  | case7 i rest htext hbody hempty ih =>
    rw [List.foldl_cons, ih fun w hw => hbare w (by simp [hw])]
    rfl

/-- The strokes of items begin with a gap or a word only if the items begin with text. -/
theorem head_strokes {o : MarkupOptions} {its : List Item}
    (h : ∀ raw, its.head? ≠ some (.text raw)) :
    (∀ s, (strokes o its).head? ≠ some (gap s)) ∧ ∀ s, (strokes o its).head? ≠ some (word s) := by
  unfold strokes
  split
  · simp
  · exact absurd rfl (h _)
  · split <;> simp
  · split <;> simp
  · simp

/-- The chunks of a text take turns. -/
theorem divided_ofText (raw : Text) {rest : List Stroke} (hrest : Divided rest)
    (hgap : ∀ s, rest.head? ≠ some (gap s)) (hword : ∀ s, rest.head? ≠ some (word s)) :
    Divided ((Chunk.ofText raw).map ofChunk ++ rest) := by
  -- a character joins the first chunk if it is of its kind, else it is a new one
  induction raw with
  | nil => exact hrest
  | cons c raw ih =>
    rw [ofText_cons]
    cases hc : isBlank c with
    | true =>
      have hone : Text.Blank [c] := Text.blank_cons.mpr ⟨hc, Text.blank_nil⟩
      cases hchunks : Chunk.ofText raw with
      | nil =>
        rw [Chunk.cons, if_pos hc]
        exact ⟨hone, List.cons_ne_nil c [], hgap, hrest⟩
      | cons chunk more =>
        rw [hchunks] at ih
        cases chunk with
        | gap t =>
          obtain ⟨hblank, -, hnext, hmore⟩ := ih
          rw [Chunk.cons, if_pos hc]
          exact ⟨Text.blank_cons.mpr ⟨hc, hblank⟩, List.cons_ne_nil c t, hnext, hmore⟩
        | word t =>
          rw [Chunk.cons, if_pos hc]
          refine ⟨hone, List.cons_ne_nil c [], ?_, ih⟩
          intro s h
          cases h
    | false =>
      have hone : ∀ d ∈ [c], isBlank d = false := List.forall_mem_singleton.mpr hc
      cases hchunks : Chunk.ofText raw with
      | nil =>
        rw [Chunk.cons, if_neg (by simp [hc])]
        exact ⟨hone, List.cons_ne_nil c [], hword, hrest⟩
      | cons chunk more =>
        rw [hchunks] at ih
        cases chunk with
        | gap t =>
          rw [Chunk.cons, if_neg (by simp [hc])]
          refine ⟨hone, List.cons_ne_nil c [], ?_, ih⟩
          intro s h
          cases h
        | word t =>
          obtain ⟨hletters, -, hnext, hmore⟩ := ih
          rw [Chunk.cons, if_neg (by simp [hc])]
          exact ⟨List.forall_mem_cons.mpr ⟨hc, hletters⟩, List.cons_ne_nil c t, hnext, hmore⟩

/-- The strokes of items are divided if no two texts are neighbours and only markup is a stroke
by itself. -/
theorem divided_strokes {o : MarkupOptions} {its : List Item} (h : Item.Apart its)
    (hmarkup : ∀ i, item i ∈ strokes o its → i.isMarkup = true) : Divided (strokes o its) := by
  fun_induction strokes o its with
  | case1 => trivial
  | case2 raw rest ih =>
    obtain ⟨hnext, hrest⟩ := h
    obtain ⟨hgap, hword⟩ := head_strokes (o := o) hnext
    exact divided_ofText raw (ih hrest fun i hi => hmarkup i (List.mem_append_right _ hi)) hgap
      hword
  | case3 tag content name close rest ih =>
    exact ih h.tail.tail.tail fun i hi => hmarkup i (List.mem_cons_of_mem _ hi)
  | case4 tag content name close name' rest hname ih =>
    -- content before the end of another element is no markup
    exact absurd (hmarkup (.body content name) (by simp)) (by simp [Item.isMarkup])
  | case5 tag close name rest hkeeps ih =>
    exact ih h.tail.tail fun i hi => hmarkup i (List.mem_cons_of_mem _ hi)
  | case6 tag close name rest hkeeps ih =>
    exact ⟨rfl, rfl, ih h.tail.tail fun i hi => hmarkup i (by simp [hi])⟩
  | case7 i rest htext hbody hempty ih =>
    exact ⟨hmarkup i (List.mem_cons_self ..),
      ih h.tail fun j hj => hmarkup j (List.mem_cons_of_mem _ hj)⟩

/-- No markup begins in a word among the strokes of a scan. -/
theorem calm_of_mem_strokes {o : MarkupOptions} {its : List Item}
    (h : ∀ raw, Item.text raw ∈ its → Item.Calm o raw) {s : Text} (hs : word s ∈ strokes o its) :
    Item.Calm o s := by
  fun_induction strokes o its with
  | case1 => cases hs
  | case2 raw rest ih =>
    rcases List.mem_append.mp hs with hs | hs
    · obtain ⟨x, hx, heq⟩ := List.mem_map.mp hs
      cases x with
      | gap t => cases heq
      | word t =>
        obtain rfl : t = s := word.inj heq
        -- a word of the text, with the rest of the text behind it
        obtain ⟨before, after, hsplit⟩ := List.append_of_mem hx
        have hraw := Chunk.textOf_ofText raw
        rw [hsplit, Chunk.textOf_append, Chunk.textOf_cons] at hraw
        have hcalm : Item.Calm o (t ++ Chunk.textOf after) :=
          (h raw (List.mem_cons_self ..)).of_suffix ⟨_, hraw⟩
        exact hcalm.left_of_append
    · exact ih (fun raw hraw => h raw (List.mem_cons_of_mem _ hraw)) hs
  | case3 tag content name close rest ih =>
    refine ih (fun raw hraw => h raw (by simp [hraw])) ?_
    simpa using hs
  | case4 tag content name close name' rest hname ih =>
    refine ih (fun raw hraw => h raw (by simp [hraw])) ?_
    simpa using hs
  | case5 tag close name rest hkeeps ih =>
    refine ih (fun raw hraw => h raw (by simp [hraw])) ?_
    simpa using hs
  | case6 tag close name rest hkeeps ih =>
    refine ih (fun raw hraw => h raw (by simp [hraw])) ?_
    simpa using hs
  | case7 i rest htext hbody hempty ih =>
    refine ih (fun raw hraw => h raw (by simp [hraw])) ?_
    simpa using hs

end Stroke

end TemplateTidy
