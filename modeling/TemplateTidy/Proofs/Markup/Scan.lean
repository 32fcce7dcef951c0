import TemplateTidy.Markup.Item
import TemplateTidy.Proofs.Text.Occurrence

/-!
# The items divide the markup

The items of a scan, put together, are the markup. Two more facts are needed of
how they follow each other. Between two items stands a bracket: the first ends
with `>`, or the second begins with `<`. And a tag that is left unfinished is the
last item.

The scanner cuts at places that are *closed*: behind a `>`, or at the end of
the text. Each way of finding such a place gets one lemma.

Main results: `Item.rawOf_scan`, `Item.follows_scan`.
-/

namespace TemplateTidy

/-! ## Closed places -/

/-- The first `n` characters end with `>`, or they are all there are. -/
def Text.ClosedAt (s : Text) (n : Nat) : Prop :=
  (s.take n).getLast? = some '>' ∨ s.drop n = []

namespace Text

/-- What ends at a bracket behind a front ends there with the front. -/
theorem ClosedAt.add {s : Text} {m n : Nat} (h : ClosedAt (s.drop m) n) : s.ClosedAt (m + n) := by
  rcases h with h | h
  · left
    rw [List.take_add, List.getLast?_append, h]
    rfl
  · right
    rwa [← List.drop_drop]

theorem closedAt_of_length_le {s : Text} {n : Nat} (h : s.length ≤ n) : s.ClosedAt n :=
  .inr (List.drop_eq_nil_of_le h)

/-- Where something is found, it is recognised. -/
theorem searchFrom_spec {r : Recogniser} {s : Text} {i j n : Nat}
    (h : searchFrom r i s = some (j, n)) : ∃ m, j = i + m ∧ r (s.drop m) = some n := by
  induction s generalizing i with
  | nil =>
    obtain ⟨m, hm, heq⟩ := Option.map_eq_some_iff.mp h
    obtain ⟨rfl, rfl⟩ := Prod.mk.inj heq
    exact ⟨0, rfl, hm⟩
  | cons c s ih =>
    rw [searchFrom] at h
    split at h
    · rename_i m hm
      obtain ⟨rfl, rfl⟩ := Prod.mk.inj (Option.some.inj h)
      exact ⟨0, rfl, hm⟩
    · obtain ⟨m, rfl, hm⟩ := ih h
      exact ⟨m + 1, by omega, hm⟩

/-- What a search finds is recognised at that offset. -/
theorem search?_spec {r : Recogniser} {s : Text} {i n : Nat} (h : search? r s = some (i, n)) :
    r (s.drop i) = some n := by
  obtain ⟨m, rfl, hm⟩ := searchFrom_spec h
  rwa [Nat.zero_add]

/-- Behind a terminator that ends with `>` the place is closed. -/
theorem closedAt_of_through? {pat : Text} (hpat : pat.getLast? = some '>') {s : Text} {n : Nat}
    (h : through? pat s = some n) : s.ClosedAt n := by
  obtain ⟨i, hi, rfl⟩ := Option.map_eq_some_iff.mp h
  obtain ⟨m, rfl, hm⟩ := findFrom_spec hi
  rw [Nat.zero_add]
  refine ClosedAt.add (.inl ?_)
  rwa [List.prefix_iff_eq_take.mp hm] at hpat

end Text

/-! ## Tags -/

/-- A tag ends at a bracket or with the text. -/
theorem Tag.closedAt_length (templates : Bool) (spot : Spot) (s : Text) :
    s.ClosedAt (Tag.length templates spot s) := by
  induction s generalizing spot with
  | nil => exact .inr rfl
  | cons c s ih =>
    rw [Tag.length]
    split
    · rename_i hclose
      rw [hclose.2]
      exact .inl rfl
    · exact Text.ClosedAt.add (m := 1) (ih _)

namespace Item

theorem closedAt_tagLength (o : MarkupOptions) (s : Text) : s.ClosedAt (tagLength o s) :=
  Text.ClosedAt.add (Tag.closedAt_length _ _ _)

/-- So does a copied item. -/
theorem closedAt_extent {terminator : Text} (h : terminator.getLast? = some '>') (head : Nat)
    (s : Text) : s.ClosedAt (extent head terminator s) := by
  rw [extent]
  split
  · rename_i n hn
    exact Text.ClosedAt.add (Text.closedAt_of_through? h hn)
  · exact Text.closedAt_of_length_le (Nat.le_refl _)

/-- A tag of an element goes from its opener through the next `>`. -/
theorem exists_of_tagOf? {name s : Text} {closes selfClosing : Bool} {n : Nat}
    (h : tagOf? name s = some (closes, selfClosing, n)) :
    ∃ head m, 0 < head ∧ Text.through? ['>'] (s.drop head) = some m ∧ n = head + m := by
  unfold tagOf? at h
  split at h
  · rename_i rest
    dsimp only at h
    -- all that is needed of the opener is that it is not empty
    have hlead : 0 < (if rest.head? == some '/' then 2 else 1) := by split <;> omega
    generalize (if rest.head? == some '/' then 2 else 1) = lead at h hlead
    split at h
    · generalize hhead : lead + Text.blanks (List.drop lead ('<' :: rest)) + name.length = head at h
      generalize hafter : List.drop head ('<' :: rest) = after at h
      cases after with
      | nil => cases h
      | cons c more =>
        dsimp only at h
        split at h
        · obtain ⟨m, hm, heq⟩ := Option.map_eq_some_iff.mp h
          simp only [Prod.mk.injEq] at heq
          rw [← hafter] at hm
          exact ⟨head, m, by omega, hm, heq.2.2.symm⟩
        · cases h
    · cases h
  · cases h

/-- A tag of an element that is copied whole ends with `>`. -/
theorem closedAt_of_tagOf? {name s : Text} {closes selfClosing : Bool} {n : Nat}
    (h : tagOf? name s = some (closes, selfClosing, n)) : s.ClosedAt n := by
  obtain ⟨head, m, -, hm, rfl⟩ := exists_of_tagOf? h
  exact Text.ClosedAt.add (Text.closedAt_of_through? rfl hm)

/-- So does the rest of an element that is copied whole. -/
theorem closedAt_elementRest (name : Text) (depth : Nat) (s : Text) :
    s.ClosedAt (elementRest name depth s) := by
  fun_induction elementRest name depth s with
  | case1 depth => exact .inr rfl
  | case2 depth c cs selfClosing n htag hdepth => exact closedAt_of_tagOf? htag
  | case3 depth c cs selfClosing n htag hdepth ih =>
    refine Text.ClosedAt.add ?_
    rwa [Nat.add_comm, List.drop_succ_cons]
  | case4 depth c cs selfClosing n htag ih =>
    refine Text.ClosedAt.add ?_
    rwa [Nat.add_comm, List.drop_succ_cons]
  | case5 depth c cs htag ih => exact Text.ClosedAt.add (m := 1) ih

/-! ## Items at the front of a text -/

/-- The item is neither text nor the content of an element. -/
def isMarkup : Item → Bool
  | text _ | body _ _ => false
  | _ => true

/-- The item is not empty and begins as it must. -/
def Formed : Item → Prop
  | text r => r ≠ []
  | body r _ => r ≠ []
  | startTag tag => ∃ c r, tag.raw = '<' :: c :: r ∧ c.isAlpha = true
  | i => i.raw.head? = some '<'

/-- Items are not empty. -/
theorem Formed.raw_ne_nil {i : Item} (h : i.Formed) : i.raw ≠ [] := by
  cases i with
  | text r => exact h
  | body r name => exact h
  | startTag tag =>
    obtain ⟨c, r, hraw, -⟩ := h
    simp [raw, hraw]
  | endTag r name | comment r | template r | declaration r | verbatim r name =>
    intro hnil
    have hhead : r.head? = some '<' := h
    rw [show r = [] from hnil] at hhead
    cases hhead

/-- Markup begins with its opening bracket. -/
theorem Formed.head_of_isMarkup {i : Item} (h : i.Formed) (hi : i.isMarkup = true) :
    i.raw.head? = some '<' := by
  cases i with
  | text r => exact Bool.noConfusion hi
  | body r name => exact Bool.noConfusion hi
  | startTag tag =>
    obtain ⟨c, r, hraw, -⟩ := h
    simp [raw, hraw]
  | _ => exact h

/-- The items that a text begins with: one that is closed, or a start tag and
content that reaches to the next bracket. -/
inductive Fronts (s : Text) : List Item → Prop
  | single {i : Item} {n : Nat} (hraw : i.raw = s.take n) (hmarkup : i.isMarkup = true)
      (hformed : i.Formed) (hclosed : s.ClosedAt n) : Fronts s [i]
  | content {tag : StartTag} {content name : Text} {n m : Nat} (hraw : tag.raw = s.take n)
      (hformed : (startTag tag).Formed) (hclosed : s.ClosedAt n)
      (hcontent : content = (s.drop n).take m) (hne : content ≠ [])
      (hrest : s.drop (n + m) = [] ∨ (s.drop (n + m)).head? = some '<') :
      Fronts s [startTag tag, body content name]

/-- The content of an element that is not read as markup ends before a bracket. -/
theorem drop_bodyLength (name s : Text) :
    s.drop (bodyLength name s) = [] ∨ (s.drop (bodyLength name s)).head? = some '<' := by
  -- whatever is recognised begins with the opener of an end tag
  have hopen : ∀ (s : Text) (n : Nat), Html.endTagOf name s = some n → s.head? = some '<' := by
    intro s n h
    rw [Html.endTagOf, Recogniser.andThen] at h
    split at h
    · rename_i hlit
      rw [Text.literal] at hlit
      split at hlit
      · rename_i hpre
        obtain ⟨rest, hs⟩ := List.isPrefixOf_iff_prefix.mp hpre
        rw [← hs]
        rfl
      · cases hlit
    · cases h
  rw [bodyLength]
  split
  · rename_i i n hfound
    exact .inr (hopen _ n (Text.search?_spec hfound))
  · exact .inl (List.drop_length ..)

/-- The front of a text that begins with a bracket does so too. -/
theorem head?_take {s : Text} {n : Nat} (hs : s.head? = some '<') (hn : n ≠ 0) :
    (s.take n).head? = some '<' := by
  rw [List.head?_take, if_neg hn, hs]

/-- A tag has at least its opening bracket and a letter. -/
theorem two_le_tagLength (o : MarkupOptions) {c : Char} (hc : c.isAlpha = true) (rest : Text) :
    ∃ n, tagLength o ('<' :: c :: rest) = n + 2 := by
  have hgt : c ≠ '>' := by
    rintro rfl
    exact absurd hc (by decide)
  have hlength : ∀ spot, Tag.length o.templates spot (c :: rest) =
      1 + Tag.length o.templates (spot.next o.templates 4 c rest) rest := by
    intro spot
    rw [Tag.length, if_neg fun h => hgt h.2]
  refine ⟨Tag.length o.templates (Tag.Spot.next o.templates 4 .plain c rest) rest, ?_⟩
  rw [tagLength, List.drop_succ_cons, List.drop_zero, hlength]
  omega

/-- **What is read of an element** is at the front of the text. -/
theorem fronts_element (o : MarkupOptions) {c : Char} (hc : c.isAlpha = true) (rest : Text) :
    Fronts ('<' :: c :: rest) (element o ('<' :: c :: rest)) := by
  have hclosed := closedAt_tagLength o ('<' :: c :: rest)
  obtain ⟨n, hn⟩ := two_le_tagLength o hc rest
  have hformed : ∃ c' r, ('<' :: c :: rest).take (tagLength o ('<' :: c :: rest)) = '<' :: c' :: r ∧
      c'.isAlpha = true := by
    rw [hn]
    exact ⟨c, rest.take n, rfl, hc⟩
  rw [element]
  dsimp only
  -- an element that is copied whole, one whose content is no markup, or a mere tag
  split
  · refine .single rfl rfl ?_ (Text.ClosedAt.add (closedAt_elementRest _ 1 _))
    exact head?_take rfl (by omega)
  · split
    · split
      · exact .single rfl rfl hformed hclosed
      · rename_i hcontent
        refine .content rfl hformed hclosed rfl (by simpa using hcontent) ?_
        have hbody := drop_bodyLength
          (startTagOf o ('<' :: c :: rest) (tagLength o ('<' :: c :: rest))).name
          (List.drop (tagLength o ('<' :: c :: rest)) ('<' :: c :: rest))
        rwa [List.drop_drop] at hbody
    · exact .single rfl rfl hformed hclosed

/-- What is copied is not empty. -/
theorem extent_ne_zero {head : Nat} (hhead : head ≠ 0) (terminator : Text) {s : Text}
    (hs : s ≠ []) : extent head terminator s ≠ 0 := by
  rw [extent]
  split
  · omega
  · simpa using hs

/-- **What is read as markup** is at the front of the text. -/
theorem fronts_markup? {o : MarkupOptions} {s : Text} {items : List Item}
    (h : markup? o s = some items) : Fronts s items := by
  unfold markup? at h
  -- one case for each way in which markup can begin
  split at h
  · -- a comment
    rename_i hopen
    obtain ⟨rest, rfl⟩ := List.isPrefixOf_iff_prefix.mp hopen
    rw [← Option.some.inj h]
    refine .single rfl rfl (head?_take rfl (extent_ne_zero ?_ _ ?_)) (closedAt_extent rfl 4 _)
    · decide
    · simp
  · split at h
    · -- a templating tag
      rename_i hopen
      rw [Bool.and_eq_true] at hopen
      obtain ⟨rest, rfl⟩ := List.isPrefixOf_iff_prefix.mp hopen.2
      rw [← Option.some.inj h]
      refine .single rfl rfl (head?_take rfl (extent_ne_zero ?_ _ ?_)) (closedAt_extent rfl 2 _)
      · decide
      · simp
    · -- a tag: a declaration, an end tag or a start tag
      have htag : ∀ s : Text, tagLength o s ≠ 0 := by
        intro s
        rw [tagLength]
        omega
      split at h
      · rw [← Option.some.inj h]
        exact .single rfl rfl (head?_take rfl (htag _)) (closedAt_tagLength o _)
      · split at h
        · rw [← Option.some.inj h]
          exact .single rfl rfl (head?_take rfl (htag _)) (closedAt_tagLength o _)
        · cases h
      · split at h
        · rename_i hc
          rw [← Option.some.inj h]
          exact fronts_element o hc _
        · cases h
      · cases h

/-- A start tag and its content are the front of the text. -/
theorem rawOf_content {s : Text} {tag : StartTag} {content name : Text} {n m : Nat}
    (hraw : tag.raw = s.take n) (hcontent : content = (s.drop n).take m) :
    rawOf [startTag tag, body content name] = s.take (n + m) := by
  rw [rawOf, List.flatMap_cons, List.flatMap_singleton, raw, raw, hraw, hcontent, ← List.take_add]

/-- What is at the front of a text is followed by the rest of it. -/
theorem Fronts.raw_prefix {s : Text} {items : List Item} (h : Fronts s items) :
    rawOf items ++ s.drop (rawOf items).length = s := by
  have hcut : ∀ n, s.take n ++ s.drop (s.take n).length = s := by
    intro n
    exact List.prefix_iff_eq_append.mp (List.take_prefix n s)
  cases h with
  | @single i n hraw =>
    rw [rawOf, List.flatMap_singleton, hraw]
    exact hcut n
  | @content tag content name n m hraw _ _ hcontent =>
    rw [rawOf_content hraw hcontent]
    exact hcut (n + m)

/-- What is at the front of a text is not empty. -/
theorem Fronts.ne_nil {s : Text} {items : List Item} (h : Fronts s items) :
    rawOf items ≠ [] := by
  cases h with
  | single _ _ hformed =>
    simpa [rawOf] using hformed.raw_ne_nil
  | content _ _ _ _ hne =>
    simp [rawOf, raw, hne]

/-! ## The scan -/

/-- What is left after the first items of a text. -/
theorem drop_rawOf {c : Char} {cs : Text} {items : List Item} (h : Fronts (c :: cs) items) :
    cs.drop ((rawOf items).length - 1) = (c :: cs).drop (rawOf items).length := by
  obtain ⟨n, hn⟩ := Nat.exists_eq_add_one.mpr (List.length_pos_iff.mpr h.ne_nil)
  rw [hn, Nat.add_sub_cancel, List.drop_succ_cons]

/-- Text in front of items is in front of their characters. -/
theorem rawOf_consText (t : Text) (items : List Item) :
    rawOf (consText t items) = t ++ rawOf items := by
  unfold consText
  split
  · simp [rawOf, raw]
  · simp [rawOf, raw]

/-- **The items, put together, are the markup.** -/
theorem rawOf_scan (o : MarkupOptions) (s : Text) : rawOf (scan o s) = s := by
  fun_induction scan o s with
  | case1 => rfl
  | case2 c cs items hitems ih =>
    have hfronts := fronts_markup? hitems
    rw [drop_rawOf hfronts] at ih
    rw [drop_rawOf hfronts, rawOf, List.flatMap_append]
    exact (congrArg (rawOf items ++ ·) ih).trans hfronts.raw_prefix
  | case3 c cs hnone run ih =>
    rw [rawOf_consText, ih, List.cons_append]
    exact congrArg (c :: ·) (List.prefix_iff_eq_append.mp (List.takeWhile_prefix _))

/-- The item may follow a character: between them stands a bracket. Content stands
behind the bracket of its start tag. -/
def Joins (last : Option Char) : Item → Prop
  | body _ _ => last = some '>'
  | i => last = none ∨ last = some '>' ∨ i.raw.head? = some '<'

/-- Markup may follow anything. -/
theorem joins_of_isMarkup {last : Option Char} {i : Item} (hi : i.isMarkup = true)
    (hhead : i.raw.head? = some '<') : i.Joins last := by
  cases i with
  | body r name => cases hi
  | _ => exact .inr (.inr hhead)

/-- Items may follow a character, each the one before it, and only the last may be
unfinished. -/
def Follows : Option Char → List Item → Prop
  | _, [] => True
  | last, i :: items =>
    i.Joins last ∧ i.Formed ∧
    (i.isMarkup = true → i.raw.getLast? = some '>' ∨ items = []) ∧
    Follows i.raw.getLast? items

/-- An item among others is formed, and unfinished only if it is the last. -/
theorem Follows.at {last : Option Char} {before after : List Item} {i : Item}
    (h : Follows last (before ++ i :: after)) :
    i.Formed ∧ (i.isMarkup = true → i.raw.getLast? = some '>' ∨ after = []) := by
  induction before generalizing last with
  | nil => exact ⟨h.2.1, h.2.2.1⟩
  | cons j before ih => exact ih h.2.2.2

/-- An item at the front of a text may be put before those behind it. -/
theorem follows_single {last : Option Char} {i : Item} {items : List Item} {s : Text} {n : Nat}
    (hraw : i.raw = s.take n) (hmarkup : i.isMarkup = true) (hformed : i.Formed)
    (hclosed : s.ClosedAt n) (hend : s.drop n = [] → items = [])
    (hrest : i.raw.getLast? = some '>' ∨ s.drop n = [] → Follows i.raw.getLast? items) :
    Follows last (i :: items) := by
  have hlast : i.raw.getLast? = some '>' ∨ s.drop n = [] := by
    rw [hraw]
    exact hclosed
  have hjoins : i.Joins last := joins_of_isMarkup hmarkup (hformed.head_of_isMarkup hmarkup)
  refine ⟨hjoins, hformed, fun _ => ?_, hrest hlast⟩
  exact hlast.imp_right hend

/-- Text may be put before items at a bracket. -/
theorem follows_consText {last : Option Char} {t : Text} (ht : t ≠ []) {items : List Item}
    (hlast : last = none ∨ last = some '>' ∨ t.head? = some '<')
    (hitems : ∀ last, Follows last items) : Follows last (consText t items) := by
  have hhead : ∀ u : Text, (t ++ u).head? = t.head? := by
    intro u
    cases t with
    | nil => exact absurd rfl ht
    | cons c t => rfl
  unfold consText
  split
  · -- joined to a text that is there, which keeps its end
    rename_i u rest
    obtain ⟨-, hu, -, hrest⟩ := hitems none
    have hu' : u ≠ [] := hu
    refine ⟨?_, by simp [Formed, ht], (fun h => nomatch h), ?_⟩
    · show last = none ∨ last = some '>' ∨ (t ++ u).head? = some '<'
      rwa [hhead]
    · rw [raw, List.getLast?_append, List.getLast?_eq_some_getLast hu', Option.some_or,
        ← List.getLast?_eq_some_getLast hu']
      exact hrest
  · exact ⟨hlast, ht, fun h => (nomatch h), hitems _⟩

/-- Dropping as much as was taken leaves the same, also where the text is too short. -/
theorem drop_length_take (s : Text) (n : Nat) : s.drop (s.take n).length = s.drop n :=
  List.append_cancel_left ((List.prefix_iff_eq_append.mp (List.take_prefix n s)).trans
    (List.take_append_drop n s).symm)

/-- **The items follow each other at brackets.** -/
theorem follows_scan (o : MarkupOptions) {last : Option Char} {s : Text}
    (hlast : last = none ∨ last = some '>' ∨ s.head? = some '<' ∨ s = []) :
    Follows last (scan o s) := by
  fun_induction scan o s generalizing last with
  | case1 => trivial
  -- markup is read: its items follow one another, and the scan goes on behind them
  | case2 c cs items hitems ih =>
    have hfronts := fronts_markup? hitems
    rw [drop_rawOf hfronts] at ih ⊢
    cases hfronts with
    -- one item, closed by a bracket or by the end of the markup
    | @single i n hraw hmarkup hformed hclosed =>
      rw [rawOf, List.flatMap_singleton, hraw, drop_length_take] at ih ⊢
      rw [List.singleton_append]
      refine follows_single hraw hmarkup hformed hclosed (fun h => ?_) fun h => ih ?_
      · rw [h, scan]
      · rcases h with h | h
        · exact .inr (.inl h)
        · exact .inr (.inr (.inr h))
    -- a start tag with the content that is not read, up to its end tag or the end of the markup
    | @content tag content name n m hraw hformed hclosed hcontent hne hrest =>
      rw [rawOf_content hraw hcontent, drop_length_take] at ih ⊢
      rw [List.cons_append, List.singleton_append]
      refine follows_single hraw rfl hformed hclosed (fun h => ?_) fun h => ?_
      · -- there is content, so the text does not end with the tag
        rw [h, List.take_nil] at hcontent
        exact absurd hcontent hne
      · have hclose : tag.raw.getLast? = some '>' := by
          rcases h with h | h
          · exact h
          · rw [h, List.take_nil] at hcontent
            exact absurd hcontent hne
        refine ⟨hclose, hne, (fun h => nomatch h), ih ?_⟩
        rcases hrest with hrest | hrest
        · exact .inr (.inr (.inr hrest))
        · exact .inr (.inr (.inl hrest))
  -- no markup is read: the character and what follows it up to a bracket join the text
  | case3 c cs hnone run =>
    rename_i ih
    refine follows_consText (List.cons_ne_nil _ _) ?_ fun last => ih ?_
    · rcases hlast with h | h | h | h
      · exact .inl h
      · exact .inr (.inl h)
      · exact .inr (.inr h)
      · cases h
    · -- text ends before a bracket
      rw [show cs.drop run.length = cs.dropWhile (· != '<') from Text.drop_length_takeWhile ..]
      cases hrest : cs.dropWhile (· != '<') with
      | nil => exact .inr (.inr (.inr rfl))
      | cons d ds =>
        have hd := List.head_dropWhile_not (· != '<') (l := cs) (by simp [hrest])
        simp only [hrest, List.head_cons, bne_eq_false_iff_eq] at hd
        rw [hd]
        exact .inr (.inr (.inl rfl))

end Item

end TemplateTidy
