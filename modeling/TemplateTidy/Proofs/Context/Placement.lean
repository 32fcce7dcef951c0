import TemplateTidy.Context.Element
import TemplateTidy.Proofs.Context.Bisection
import TemplateTidy.Proofs.Html.Walk
import TemplateTidy.Proofs.Text.Case
import TemplateTidy.Proofs.Token.Partition

/-!
# Scripts and style sheets stand in the markup, one after the other

The ranges of a template that scripts and style sheets cover are found in a copy of the
template with all code blanked out.

* A bracket, a slash or a letter of the copy is one of the template, at the same offset
  and in a token of markup (`Token.getElem?_markupOf`).
* While the content of an element is passed over, and only then, the range of that
  element is pending. So each range ends before the next one starts
  (`ContextRange.placed_collect`).

Main result: `ContextRange.find_in_order`.
-/

namespace TemplateTidy

/-! ## The markup of a template -/

namespace Token

/-- The offset lies in a token of markup. -/
def InMarkup (tokens : List Token) (n : Nat) : Prop :=
  ∃ t ∈ tokens, t.kind = .inlineHtml ∧ t.start ≤ n ∧ n < t.stop

/-- Code is blanked out, so that what shows in the markup stands in it. -/
def Shows (c : Char) : Prop :=
  c ≠ ' ' ∧ c ≠ '\n'

instance : DecidablePred Shows := fun _ => inferInstanceAs (Decidable (_ ∧ _))

/-- What is visible of a token is as long as the token. -/
theorem length_visible (t : Token) : t.visible.length = t.text.length := by
  unfold visible
  split
  · rfl
  · rw [List.length_map]

/-- What shows of a token is markup and stands in the token at the same place. -/
theorem getElem?_visible {t : Token} {i : Nat} {c : Char} (hc : Shows c)
    (h : t.visible[i]? = some c) : t.kind = .inlineHtml ∧ t.text[i]? = some c := by
  unfold visible at h
  split at h
  · rename_i hkind
    exact ⟨hkind, h⟩
  · -- all that is left of code is white space
    rw [List.getElem?_map] at h
    obtain ⟨d, -, hd⟩ := Option.map_eq_some_iff.mp h
    split at hd
    · rename_i hfeed
      exact absurd (hd.symm.trans hfeed) hc.2
    · exact absurd hd.symm hc.1

/-- What shows in the markup is written there in the template. -/
theorem getElem?_markupOf {start : Nat} {ps : List Piece} {i : Nat} {c : Char} (hc : Shows c)
    (h : (markupOf (Piece.locate start ps))[i]? = some c) :
    (ps.flatMap Piece.text)[i]? = some c ∧ InMarkup (Piece.locate start ps) (start + i) := by
  induction ps generalizing start i with
  | nil => cases h
  | cons p ps ih =>
    rw [Piece.locate, markupOf, List.flatMap_cons] at h
    rw [List.flatMap_cons, Piece.locate]
    -- a piece takes as much room in the markup as in the template, shown or blanked out,
    -- so both texts are divided at the same place
    by_cases hi : i < p.text.length
    · have hvisible : i < (visible ⟨p.kind, p.text, start⟩).length := by
        rw [length_visible]
        exact hi
      rw [List.getElem?_append_left hvisible] at h
      obtain ⟨hkind, htext⟩ := getElem?_visible hc h
      refine ⟨?_, _, List.mem_cons_self .., hkind, Nat.le_add_right _ _, ?_⟩
      · rw [List.getElem?_append_left hi]
        exact htext
      · exact Nat.add_lt_add_left hi start
    · have hbehind : p.text.length ≤ i := by omega
      rw [List.getElem?_append_right (by rw [length_visible]; exact hbehind), length_visible] at h
      dsimp only at h
      obtain ⟨htext, t, ht, hkind, hstart, hstop⟩ := ih h
      refine ⟨?_, t, List.mem_cons_of_mem _ ht, hkind, ?_, ?_⟩
      · rw [List.getElem?_append_right hbehind]
        exact htext
      · omega
      · omega

/-- What shows in the markup of a template stands in the template, outside of code. -/
theorem getElem?_markup {shortTags : Bool} {s : Text} {i : Nat} {c : Char} (hc : Shows c)
    (h : (markupOf (tokenize shortTags s))[i]? = some c) :
    s[i]? = some c ∧ InMarkup (tokenize shortTags s) i := by
  obtain ⟨htext, hplace⟩ := getElem?_markupOf hc h
  rw [← Piece.locate_text 0, ← tokenize, tokenize_text] at htext
  rw [Nat.zero_add] at hplace
  exact ⟨htext, hplace⟩

/-- A text that shows is written in the template where it is read in the markup. -/
theorem prefix_of_markup {shortTags : Bool} {s u : Text} {n : Nat} (hu : ∀ c ∈ u, Shows c)
    (h : u <+: (markupOf (tokenize shortTags s)).drop n) : u <+: s.drop n := by
  rw [List.prefix_iff_getElem?] at h ⊢
  intro i hi
  have hmarkup := h i hi
  rw [List.getElem?_drop] at hmarkup ⊢
  exact (getElem?_markup (hu _ (List.getElem_mem hi)) hmarkup).1

/-- Such a text begins in a token of markup. -/
theorem inMarkup_of_prefix {shortTags : Bool} {s u : Text} {c : Char} {n : Nat} (hc : Shows c)
    (h : c :: u <+: (markupOf (tokenize shortTags s)).drop n) :
    n < s.length ∧ InMarkup (tokenize shortTags s) n := by
  have hfirst : (markupOf (tokenize shortTags s))[n]? = some c := by
    have hget := List.prefix_iff_getElem?.mp h 0 (Nat.zero_lt_succ _)
    rwa [List.getElem?_drop, Nat.add_zero] at hget
  obtain ⟨htext, hplace⟩ := getElem?_markup hc hfirst
  exact ⟨(List.getElem?_eq_some_iff.mp htext).1, hplace⟩

end Token

/-! ## The ranges of a document -/

namespace ContextRange

open Html (TagEvent Reads Construct)

/-- The start tag of a script or a style sheet is written at the offset. -/
def OpensAt (doc : Text) (n : Nat) : Prop :=
  ∃ name, Text.lower name ∈ codeElements ∧ '<' :: name <+: doc.drop n

/-- The range begins with the start tag of an element. It ends there too, or with an end
tag, or not at all. -/
structure Marks (doc : Text) (r : ContextRange) : Prop where
  start : ∃ n : Nat, r.start = n ∧ OpensAt doc n
  stop : ∀ e, r.stop = some e → e = r.start ∨
    r.start ≤ e ∧ ∃ n : Nat, e = n ∧ "</".toList <+: doc.drop n

/-- The ranges come one after the other, from an offset on. -/
structure Placed (doc : Text) (n : Nat) (ranges : List ContextRange) : Prop where
  ordered : ranges.Pairwise Before
  marks : ∀ r ∈ ranges, Marks doc r
  starts : ∀ r ∈ ranges, (n : Int) ≤ r.start

/-- A range is pending while the content of its element is passed over. -/
inductive Pending (doc : Text) (n : Nat) : Option Text → Option Nat → Prop where
  | outside : Pending doc n none none
  | inside {name : Text} {start : Nat} (hname : name ∈ codeElements) (hstart : start ≤ n)
      (hopens : OpensAt doc start) : Pending doc n (some name) (some start)

/-- Ranges that start late enough start late enough for an earlier offset. -/
theorem Placed.mono {doc : Text} {m n : Nat} {ranges : List ContextRange} (h : Placed doc n ranges)
    (hle : m ≤ n) : Placed doc m ranges where
  ordered := h.ordered
  marks := h.marks
  starts r hr := by
    have hstart := h.starts r hr
    omega

/-- What is pending stays so as the walk goes on. -/
theorem Pending.mono {doc : Text} {m n : Nat} {raw : Option Text} {pending : Option Nat}
    (h : Pending doc m raw pending) (hle : m ≤ n) : Pending doc n raw pending := by
  cases h with
  | outside => exact .outside
  | inside hname hstart hopens => exact .inside hname (Nat.le_trans hstart hle) hopens

/-- A range that has ended goes before ranges that start later. -/
theorem Placed.cons {doc : Text} {start stop : Nat} {ranges : List ContextRange}
    (h : Placed doc (stop + 1) ranges) (hopens : OpensAt doc start) (hle : start ≤ stop)
    (hcloses : stop = start ∨ "</".toList <+: doc.drop stop) :
    Placed doc start (⟨start, some stop⟩ :: ranges) where
  ordered := by
    refine List.pairwise_cons.mpr ⟨?_, h.ordered⟩
    intro r hr
    have hstart := h.starts r hr
    refine ⟨?_, stop, rfl, ?_⟩
    · show (start : Int) < r.start
      omega
    · omega
  marks := by
    refine List.forall_mem_cons.mpr ⟨⟨⟨start, rfl, hopens⟩, ?_⟩, h.marks⟩
    intro e he
    obtain rfl := Option.some.inj he
    rcases hcloses with rfl | hwritten
    · exact .inl rfl
    · exact .inr ⟨Int.ofNat_le.mpr hle, stop, rfl, hwritten⟩
  starts := by
    refine List.forall_mem_cons.mpr ⟨Int.le_refl _, ?_⟩
    intro r hr
    have hstart := h.starts r hr
    omega

/-! ### What a tag does to the pending range -/

/-- Tags of other elements are passed over. -/
theorem collect_other {elements : List Text} {e : TagEvent} (h : e.name ∉ elements)
    (pending : Option Nat) (es : List TagEvent) :
    collect elements pending (e :: es) = collect elements pending es := by
  cases pending <;> simp [collect, h]

/-- The start tag of a listed element makes a range pending. -/
theorem collect_opens {elements : List Text} {name : Text} (h : name ∈ elements)
    (n : Nat) (es : List TagEvent) :
    collect elements none (⟨false, name, n⟩ :: es) = collect elements (some n) es := by
  simp [collect, h]

/-- An end tag completes the range that is pending. -/
theorem collect_closes {elements : List Text} {name : Text} (h : name ∈ elements)
    (start n : Nat) (es : List TagEvent) :
    collect elements (some start) (⟨true, name, n⟩ :: es) =
      ⟨start, some n⟩ :: collect elements none es := by
  simp [collect, h]

/-- An end tag without a range is passed over. -/
theorem collect_stray (elements : List Text) (name : Text) (n : Nat) (es : List TagEvent) :
    collect elements none (⟨true, name, n⟩ :: es) = collect elements none es := by
  simp [collect]

/-- The content of an element is passed over exactly if the element has a range. -/
theorem rawElements_eq : Html.rawElements = codeElements := rfl

/-- **The ranges of what is read come one after the other**, the pending one first. -/
theorem placed_collect {doc : Text} {raw : Option Text} {n : Nat} {events : List TagEvent}
    (h : Reads doc raw n events) {pending : Option Nat} (hpending : Pending doc n raw pending) :
    Placed doc (pending.getD n) (collect codeElements pending events) := by
  induction h generalizing pending with
  | done raw n =>
    cases hpending with
    | outside => exact ⟨List.Pairwise.nil, List.forall_mem_nil _, List.forall_mem_nil _⟩
    | inside hname hstart hopens =>
      refine ⟨List.pairwise_singleton _ _, ?_, ?_⟩
      · refine List.forall_mem_singleton.mpr ⟨⟨_, rfl, hopens⟩, ?_⟩
        intro e he
        cases he
      · exact List.forall_mem_singleton.mpr (Int.le_refl _)
  | @step raw next n m length tags events hle hstands hlater ih =>
    -- what stands at the place decides whether a range starts or ends there
    cases hstands with
    | nothing =>
      have hplaced := ih (hpending.mono (Nat.le_succ_of_le hle))
      cases hpending with
      | outside => exact hplaced.mono (Nat.le_succ_of_le hle)
      | inside => exact hplaced
    -- an end tag closes the pending range, or is stray
    | closing hwritten hraw =>
      have hplaced := ih .outside
      cases hpending with
      | outside =>
        show Placed doc n (collect codeElements none (⟨true, _, m⟩ :: events))
        rw [collect_stray]
        exact hplaced.mono (Nat.le_succ_of_le hle)
      | inside hname hstart hopens =>
        obtain rfl := Option.some.inj (hraw.resolve_left (Option.some_ne_none _))
        show Placed doc _ (collect codeElements _ (⟨true, _, m⟩ :: events))
        rw [collect_closes hname]
        exact hplaced.cons hopens (Nat.le_trans hstart hle) (.inr hwritten)
    -- a start tag opens a range if its element holds code; none is pending then
    | @opening name hwritten =>
      cases hpending
      show Placed doc n (collect codeElements none (⟨false, _, m⟩ :: events))
      by_cases hname : Text.lower name ∈ codeElements
      · rw [rawElements_eq, if_pos (List.contains_iff_mem.mpr hname)] at ih
        rw [collect_opens hname]
        have hopens : OpensAt doc m := ⟨name, hname, hwritten⟩
        exact (ih (.inside hname (Nat.le_succ m) hopens)).mono hle
      · rw [rawElements_eq, if_neg fun h => hname (List.contains_iff_mem.mp h)] at ih
        rw [collect_other hname]
        exact (ih .outside).mono (Nat.le_succ_of_le hle)
    | @selfClosing name hwritten =>
      cases hpending
      have hplaced := ih .outside
      show Placed doc n (collect codeElements none (⟨false, _, m⟩ :: ⟨true, _, m⟩ :: events))
      by_cases hname : Text.lower name ∈ codeElements
      · -- the range is empty
        have hopens : OpensAt doc m := ⟨name, hname, hwritten⟩
        rw [collect_opens hname, collect_closes hname]
        exact (hplaced.cons hopens (Nat.le_refl m) (.inl rfl)).mono hle
      · rw [collect_other hname, collect_other hname]
        exact hplaced.mono (Nat.le_succ_of_le hle)

/-! ## The ranges of a template -/

/-- The ranges that are found in a template are placed in its markup. -/
theorem placed_find {shortTags : Bool} {s : Text} {ranges : List ContextRange}
    (h : find codeElements (tokenize shortTags s) = .ok ranges) :
    Placed (Token.markupOf (tokenize shortTags s)) 0 ranges := by
  have hsmall : codeElements.map Text.lower = codeElements := by decide
  unfold find at h
  cases hevents : Html.tagEvents (Token.markupOf (tokenize shortTags s)) with
  | error fault =>
    rw [hevents] at h
    cases h
  | ok events =>
    rw [hevents] at h
    obtain rfl := Except.ok.inj h
    rw [hsmall]
    exact placed_collect (Html.reads_tagEvents hevents) .outside

/-- A start tag of the markup is written in the template, with letters of ASCII. -/
theorem OpensAt.written {shortTags : Bool} {s : Text} {n : Nat}
    (h : OpensAt (Token.markupOf (tokenize shortTags s)) n) :
    (n < s.length ∧ Token.InMarkup (tokenize shortTags s) n) ∧
      ∃ name ∈ codeElements,
        ((s.drop n).take (name.length + 1)).map Char.toLower = '<' :: name := by
  obtain ⟨written, hname, hwritten⟩ := h
  have hletters : ∀ name ∈ codeElements, ∀ c ∈ name,
      (c.toNat < 0x80 ∧ c ∉ ['\x00', 'k']) ∧ c ≠ ' ' ∧ c ≠ '\n' := by decide
  have hspelt : written.map Char.toLower = Text.lower written :=
    Text.map_toLower_of_lower (fun c hc => (hletters _ hname c hc).1) rfl
  have hshows : ∀ c ∈ '<' :: written, Token.Shows c := by
    refine List.forall_mem_cons.mpr ⟨by decide, ?_⟩
    intro c hc
    -- white space has no capital form, so it would be part of the element's name
    have hmem : c.toLower ∈ Text.lower written := hspelt ▸ List.mem_map_of_mem hc
    obtain ⟨-, hspace, hfeed⟩ := hletters _ hname _ hmem
    constructor
    · rintro rfl
      exact hspace rfl
    · rintro rfl
      exact hfeed rfl
  refine ⟨Token.inMarkup_of_prefix (by decide) hwritten, _, hname, ?_⟩
  have hlength : (Text.lower written).length + 1 = ('<' :: written).length := by
    rw [← hspelt, List.length_map, List.length_cons]
  obtain ⟨rest, hrest⟩ := Token.prefix_of_markup hshows hwritten
  rw [hlength, ← hrest, List.take_left, List.map_cons, hspelt]
  rfl

/-- **Scripts and style sheets come one after the other, in the markup of the template.**
Their ranges start at start tags and end at end tags, or at once if a tag closes itself,
and only the last may have no end. So an offset is looked up in the right range. -/
theorem find_in_order (shortTags : Bool) (s : Text) (ranges : List ContextRange)
    (h : find codeElements (tokenize shortTags s) = .ok ranges) :
    ranges.Pairwise Before ∧
    (∀ r ∈ ranges, ∃ start : Nat, r.start = start ∧ start < s.length ∧
      Token.InMarkup (tokenize shortTags s) start ∧
      (∃ name ∈ codeElements,
        ((s.drop start).take (name.length + 1)).map Char.toLower = '<' :: name) ∧
      ∀ e, r.stop = some e → ∃ stop : Nat, e = stop ∧ start ≤ stop ∧ stop < s.length ∧
        Token.InMarkup (tokenize shortTags s) stop ∧
        (stop = start ∨ "</".toList <+: s.drop stop)) ∧
    ∀ offset : Int,
      covers ranges offset = true ↔ ∃ r ∈ ranges, r.contains offset = true := by
  have hplaced := placed_find h
  refine ⟨hplaced.ordered, ?_, covers_iff hplaced.ordered⟩
  intro r hr
  obtain ⟨⟨start, hstart, hopens⟩, hstop⟩ := hplaced.marks r hr
  obtain ⟨⟨hlength, hin⟩, hspelt⟩ := hopens.written
  refine ⟨start, hstart, hlength, hin, hspelt, ?_⟩
  intro e he
  rw [hstart] at hstop
  rcases hstop e he with rfl | ⟨hle, stop, rfl, hwritten⟩
  · -- the tag closes itself
    exact ⟨start, rfl, Nat.le_refl _, hlength, hin, .inl rfl⟩
  · have hbracket : ∀ c ∈ "</".toList, Token.Shows c := by decide
    obtain ⟨hbelow, hclose⟩ := Token.inMarkup_of_prefix (hbracket '<' (by decide)) hwritten
    refine ⟨stop, rfl, Int.ofNat_le.mp hle, hbelow, hclose, .inr ?_⟩
    exact Token.prefix_of_markup hbracket hwritten

/-- A script, code that looks like a style sheet, a style sheet that closes itself, and a
script that is left open. -/
theorem find_in_order_mixed :
    let s := "<Script a>1</script ><?= '<style>' ?><style/><SCRIPT>".toList
    let ranges : List ContextRange := [⟨0, some 11⟩, ⟨37, some 37⟩, ⟨45, none⟩]
    find codeElements (tokenize false s) = .ok ranges ∧ ranges.Pairwise Before ∧
      (covers ranges 44 = true ↔ ∃ r ∈ ranges, r.contains 44 = true) := by
  intro s ranges
  have hfind : find codeElements (tokenize false s) = .ok ranges := by decide +kernel
  obtain ⟨hordered, -, hcovers⟩ := find_in_order false s ranges hfind
  exact ⟨hfind, hordered, hcovers 44⟩

end ContextRange

end TemplateTidy
