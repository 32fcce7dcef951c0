import TemplateTidy.Proofs.Marker.Respell
import TemplateTidy.Proofs.Text.Typeset

/-!
# Fragments that decoding leaves

Disguised text is typeset anew and then decoded. A fragment of the sentinels is
left exactly if one of them was torn, that is, if white space was put in before
its last character: all other sentinels are found, and what they stand for holds
no fragment.

Main result: `Codec.collides_decode_iff`.
-/

namespace TemplateTidy

open Chunk
open Edit (Trail)

/-! ## The edits of typeset text -/

namespace Typeset

variable {cut : Text → Prop} {chunks : List Chunk} {cells : List Cell} {rest : Text}

/-- Cells, character by character. White space behind the last one is dropped. -/
def edits (cells : List Cell) (rest : Text) : List Edit :=
  cells.flatMap Cell.edits ++ rest.map .drop

/-- The edits are made from the text of the chunks. -/
theorem source_edits (h : Typeset cut chunks cells rest) :
    Edit.source (edits cells rest) = textOf chunks := by
  rw [edits, Edit.source_append, Cell.source_edits, Edit.source_map_drop, h.sets.textOf_eq]

/-- Cells have something solid. -/
theorem solid_ne (h : Typeset cut chunks cells rest) {x : Cell} (hx : x ∈ cells) :
    x.solid ≠ [] := by
  obtain ⟨before, after, hcells⟩ := List.append_of_mem hx
  exact (h.sound before x after hcells).solid_ne

/-- The edits print what the cells do. -/
theorem printed_edits (h : Typeset cut chunks cells rest) :
    Edit.printed (edits cells rest) = Cell.printed cells := by
  rw [edits, Edit.printed_append, Cell.printed_edits cells fun x hx => h.solid_ne hx,
    Edit.printed_map_drop, List.append_nil]

/-- **What is typeset is soundly edited.** -/
theorem sound_edits (h : Typeset cut chunks cells rest) :
    Edit.AllSound cut (Trail.atEnd []) (edits cells rest) := by
  rw [edits, Edit.allSound_append]
  exact ⟨Cell.sound_edits [] h.sound, Edit.allSound_map_drop h.sets.blank_rest _⟩

/-- White space at a cut behind a letter is put in by an edit. -/
theorem padsAt (h : Typeset cut chunks cells rest) {u : Text} {b c : Char}
    (hb : isBlank b = false) (hcut : cut (u ++ [b] ++ [c])) :
    Edit.PadsAt (edits cells rest) (u ++ [b] ++ [c]) := by
  obtain ⟨before, x, after, rfl, hpad, hat⟩ := h.cuts _ hcut
  have hx := h.sound before x after rfl
  obtain ⟨d, ds, hsolid⟩ := List.exists_cons_of_ne_nil hx.solid_ne
  rw [hsolid, List.take_succ_cons, List.take_zero] at hat
  obtain ⟨hfront, hlast⟩ := List.append_inj' hat rfl
  obtain rfl : d = c := List.singleton_inj.mp hlast
  -- the letter stands directly before the cell
  have hgap : x.gap = [] := by
    rcases List.eq_nil_or_concat x.gap with hnil | ⟨gap, e, hgap⟩
    · exact hnil
    · have hblank := hx.gap_blank
      rw [hgap, List.concat_eq_append] at hfront hblank
      rw [← List.append_assoc] at hfront
      obtain rfl : e = b := List.singleton_inj.mp (List.append_inj' hfront rfl).2
      rw [Text.blank_append, Text.blank_cons] at hblank
      rw [hblank.2.1] at hb
      exact Bool.noConfusion hb
  -- so the pad of the cell is new
  have hne : x.gap ≠ x.pad := by
    rw [hgap]
    exact fun h => hpad h.symm
  refine ⟨before.flatMap Cell.edits, x.pad, d,
    Edit.copy ds ++ (after.flatMap Cell.edits ++ rest.map .drop), ?_, hpad, ?_⟩
  · rw [edits, List.flatMap_append, List.flatMap_cons, Cell.edits_of_ne hne hsolid, hgap]
    simp
  · rw [Cell.source_edits, ← hfront, hgap, List.append_nil]

end Typeset

/-! ## Torn sentinels -/

namespace Symbol

variable {k : Codec}

/-- What symbols mean holds a fragment exactly if one of them is torn. -/
theorem collides_meaning_iff {syms : List Symbol}
    (hclean : k.collides (syms.flatMap sense) = false) :
    k.collides (syms.flatMap (meaning k)) = true ↔ HasTorn syms := by
  constructor
  · intro hcollides
    by_contra hnot
    have hsame : syms.flatMap (meaning k) = syms.flatMap sense := by
      refine List.flatMap_congr fun σ hσ => ?_
      cases σ with
      | plain c => rfl
      | whole a gap => rfl
      | torn stem b => exact absurd ⟨stem, b, hσ⟩ hnot
    rw [hsame, hclean] at hcollides
    exact Bool.noConfusion hcollides
  · rintro ⟨stem, b, hmem⟩
    by_contra hnot
    rw [Bool.not_eq_true] at hnot
    -- the stump holds the nonce behind its percent sign
    have hstump : '%' :: k.nonce <:+: meaning k (torn stem b) := ⟨[], '-' :: stem ++ [b], by
      simp [meaning, text]⟩
    have hwithin : meaning k (torn stem b) <:+: syms.flatMap (meaning k) := by
      obtain ⟨before, after, rfl⟩ := List.append_of_mem hmem
      rw [List.flatMap_append, List.flatMap_cons]
      exact List.infix_append' _ _ _
    exact ((Codec.collides_eq_false_iff k _).mp hnot).1 (hstump.trans hwithin)

/-- The end of a symbol at a cut is the end of a sentinel without white space before
its last character. -/
theorem exists_of_endsAt (hk : k.Branded) {syms : List Symbol} (hfresh : ∀ σ ∈ syms, σ.Fresh)
    {t : Text} (h : EndsAt k syms t) (hlast : t.getLast? = some '/' ∨ t.getLast? = some '>') :
    ∃ front a gap back u b c, syms = front ++ whole a gap :: back ∧ a ≠ .markupStart ∧
      t = flat k front ++ a.text k gap ∧ t = u ++ [b] ++ [c] ∧ isBlank b = false := by
  obtain ⟨front, σ, back, rfl, hσ, rfl⟩ := h
  cases σ with
  | plain c => exact Bool.noConfusion hσ
  | torn stem b => exact (hfresh (torn stem b) (by simp)).elim
  | whole a gap =>
    have hflat : flat k (front ++ [whole a gap]) = flat k front ++ a.text k gap := by
      simp [text]
    rw [hflat] at hlast
    -- the start of a comment in markup ends in neither
    have ha : a ≠ .markupStart := by
      rintro rfl
      rw [List.getLast?_append, Sentinel.getLast?_markupStart, Option.some_or] at hlast
      rcases hlast with h | h <;> exact absurd h (by decide)
    obtain ⟨first, mid, last, htext, hmid, hfirst, -⟩ := Sentinel.exists_shape hk ha gap
    obtain ⟨u, b, hu, hb, -, -⟩ :=
      Edit.exists_concat_of_quiet ⟨hfirst.1, hfirst.2.1, hfirst.2.2.1⟩ hmid
    refine ⟨front, a, gap, back, flat k front ++ u, b, last, rfl, ha, hflat, ?_, hb⟩
    rw [hflat, htext, ← List.cons_append, hu]
    simp

end Symbol

namespace Codec

/-- Separators behind a text bring no fragment in. -/
theorem collides_append_separators {k : Codec} {s x : Text} (h : k.collides s = false)
    (hx : ∀ c ∈ x, isFragment c = false) : k.collides (s ++ x) = false := by
  have hecho : Echo s s := by
    have happend := (Echo.nil []).append s
    rwa [List.nil_append] at happend
  exact (hecho.separators hx).collides h

end Codec

/-- Symbols spelt anew, with white space behind them, are decoded to what they mean. -/
theorem Symbol.Respells.decode {k : Codec} (hk : k.Branded) {es : List Edit}
    {syms syms' : List Symbol} (h : Respells k (Trail.atEnd []) es syms syms')
    (hclean : k.collides (syms.flatMap sense) = false) {feed : Text} (hfeed : feed.Blank) :
    k.collides ((syms' ++ feed.map plain).flatMap sense) = false ∧
      k.decode (Edit.printed es ++ feed) = (syms' ++ feed.map plain).flatMap (meaning k) := by
  have hclean' : k.collides ((syms' ++ feed.map plain).flatMap sense) = false := by
    rw [List.flatMap_append, sense_map_plain]
    refine Codec.collides_append_separators (h.collides hclean) fun c hc => ?_
    exact isFragment_of_isBlank (hfeed.of_mem hc)
  refine ⟨hclean', ?_⟩
  have hprinted : Edit.printed es ++ feed = flat k (syms' ++ feed.map plain) := by
    rw [h.printed, flat_append, flat_map_plain]
  rw [hprinted]
  exact Codec.decode_flat hk (List.forall_mem_append.mpr ⟨h.valid, valid_map_plain feed⟩) hclean'

namespace Codec

open TemplateTidy.Symbol

/-- **When decoding leaves a fragment.** Typeset anew and decoded, disguised text
holds a fragment exactly if a sentinel ends at a cut. -/
theorem collides_decode_iff {k : Codec} (hk : k.Branded) {cut : Text → Prop} (hcut : CutsTags cut)
    {chunks : List Chunk} {cells : List Cell} {rest : Text} (h : Typeset cut chunks cells rest)
    {syms : List Symbol} (hfresh : ∀ σ ∈ syms, σ.Fresh) (hflat : textOf chunks = flat k syms)
    (hclean : k.collides (syms.flatMap sense) = false) {feed : Text} (hfeed : feed.Blank) :
    k.collides (k.decode (Cell.printed cells ++ feed)) = true ↔ ∃ t, EndsAt k syms t ∧ cut t := by
  obtain ⟨syms', hrespells, htorn, hpads⟩ := exists_respells hk hcut hfresh
    (h.source_edits.trans hflat) h.sound_edits
  obtain ⟨hclean', hdecode⟩ := hrespells.decode hk hclean hfeed
  rw [h.printed_edits] at hdecode
  rw [hdecode, collides_meaning_iff hclean']
  constructor
  · -- what is torn is torn at a cut, and the feed holds no sentinel
    rintro ⟨stem, b, hmem⟩
    have hmem' : torn stem b ∈ syms' := by
      rcases List.mem_append.mp hmem with hmem | hmem
      · exact hmem
      · obtain ⟨c, -, hc⟩ := List.mem_map.mp hmem
        cases hc
    obtain ⟨t, hends, hmade⟩ := htorn ⟨stem, b, hmem'⟩
    exact ⟨t, hends, hmade⟩
  · -- at a cut behind a letter the layout always puts white space in
    rintro ⟨t, hends, hmade⟩
    obtain ⟨front, a, gap, back, u, b, c, -, -, -, rfl, hb⟩ :=
      exists_of_endsAt hk hfresh hends (hcut t hmade)
    obtain ⟨stem, blank, hmem⟩ := hpads _ hends (h.padsAt hb hmade)
    exact ⟨stem, blank, List.mem_append_left _ hmem⟩

end Codec

end TemplateTidy
