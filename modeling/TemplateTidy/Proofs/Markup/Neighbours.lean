import TemplateTidy.Proofs.Markup.Content
import TemplateTidy.Proofs.Markup.Rounds

/-!
# Neighbouring items

The scanner divides markup without loss, and what it gives out cannot be divided less: of
two neighbours at most one is text. For text is put in front of what follows it and joins
a text that stands there, while what is read at a bracket has no text in it.

Content has its place as well. It is read together with the start tag of its element, so
that nothing can come between the two. All other items are closed by a bracket, and only
the last one can be without it.

Main result: `Item.scan_partition`.
-/

namespace TemplateTidy.Item

/-- The item is text. -/
def isText : Item → Bool
  | text _ => true
  | _ => false

/-- Of two neighbours at most one is text. -/
def Alternate (i j : Item) : Prop :=
  i.isText = true → j.isText = false

/-- Text in front of items joins the first of them, if that is text. -/
theorem alternate_consText (t : Text) {items : List Item} (h : items.IsChain Alternate) :
    (consText t items).IsChain Alternate := by
  cases items with
  | nil => exact .singleton _
  | cons i rest =>
    cases i with
    | text u =>
      -- the joined text has the neighbour of the one that was there
      obtain ⟨hhead, hrest⟩ := List.isChain_cons.mp h
      exact List.isChain_cons.mpr ⟨hhead, hrest⟩
    | _ => exact List.isChain_cons_cons.mpr ⟨fun _ => rfl, h⟩

/-- What is read at a bracket may stand in front of anything. -/
theorem Fronts.alternate_append {s : Text} {items rest : List Item} (h : Fronts s items)
    (hrest : rest.IsChain Alternate) : (items ++ rest).IsChain Alternate := by
  have hcons : ∀ {i : Item} {later : List Item}, i.isText = false → later.IsChain Alternate →
      (i :: later).IsChain Alternate := by
    intro i later hi hlater
    refine List.isChain_cons.mpr ⟨fun j _ hi' => ?_, hlater⟩
    rw [hi] at hi'
    cases hi'
  cases h with
  | @single i n _ hmarkup =>
    refine hcons ?_ hrest
    cases i with
    | text => cases hmarkup
    | _ => rfl
  | content => exact hcons rfl (hcons rfl hrest)

/-- **No two texts are neighbours.** -/
theorem alternate_scan (o : MarkupOptions) (s : Text) : (scan o s).IsChain Alternate := by
  fun_induction scan o s with
  | case1 => exact .nil
  | case2 c cs items hitems ih => exact (fronts_markup? hitems).alternate_append ih
  | case3 c cs hnone run ih => exact alternate_consText (c :: run) ih

/-- **The scan divides markup into items.** The scanner stops after one more round than there
are characters at the most. What it has given out by then, put together, is the markup. No
item is empty, and no two texts are neighbours. Content stands directly behind the start tag
of its element, which is one that has an end. And an item that is neither text nor content
ends with `>`, unless it is the last one. -/
theorem scan_partition (o : MarkupOptions) (s : Text) :
    (∃ c, Scanner.rounds o (s.length + 1) { todo := s } = some c ∧ c.finish = scan o s) ∧
      rawOf (scan o s) = s ∧
      ∀ before i after, scan o s = before ++ i :: after →
        i.raw ≠ [] ∧
        (i.isText = true → ∀ j ∈ after.head?, j.isText = false) ∧
        (∀ content name, i = body content name →
          ∃ front tag, before = front ++ [startTag tag] ∧ tag.name = name ∧ tag.void = false) ∧
        (i.isMarkup = true → i.raw.getLast? = some '>' ∨ after = []) := by
  refine ⟨exists_rounds_eq_scan o s, rawOf_scan o s, fun before i after h => ?_⟩
  have hfollows := follows_scan o (s := s) (.inl rfl)
  have halternate := alternate_scan o s
  rw [h] at hfollows halternate
  obtain ⟨hformed, hclosed⟩ := hfollows.at
  obtain ⟨hnext, -⟩ := List.isChain_cons.mp (List.isChain_append.mp halternate).2.1
  refine ⟨hformed.raw_ne_nil, fun hi j hj => hnext j hj hi, fun content name hi => ?_, hclosed⟩
  rw [hi] at h
  exact exists_startTag_of_scan h

/-- A script whose code has a bracket in it, between text with a lone bracket and a comment
that is not closed. -/
theorem scan_partition_script :
    let s := "x < y<script>a<b</script><!-- c".toList
    let tag : StartTag := ⟨"<script>".toList, "script".toList, false, false⟩
    let content := body "a<b".toList "script".toList
    let before := [text "x < y".toList, startTag tag]
    let after := [endTag "</script>".toList "script".toList, comment "<!-- c".toList]
    scan {} s = before ++ content :: after ∧
      ∃ front tag, before = front ++ [startTag tag] ∧ tag.name = "script".toList ∧
        tag.void = false := by
  intro s tag content before after
  have hscan : scan {} s = before ++ content :: after := by decide +kernel
  obtain ⟨-, -, hitems⟩ := scan_partition {} s
  obtain ⟨-, -, hcontent, -⟩ := hitems before content after hscan
  exact ⟨hscan, hcontent _ _ rfl⟩

end TemplateTidy.Item
