import Mathlib.Algebra.Order.BigOperators.Group.List
import Mathlib.Algebra.Order.Group.Nat
import Mathlib.Data.List.Infix
import Mathlib.Data.List.Perm.Subperm
import Mathlib.Data.List.Sublists
import TemplateTidy.Proofs.Marker.Symbol

/-!
# The codec chosen for a text

The search for a nonce ends with one that has no fragment in the text. A draw
that collides spells a part of the text with one character cut off at the front
or at the back. A text of `n` characters has at most `(n + 1)²` parts, so of
more than `2 (n + 1)²` draws, which all differ, one does not collide — and the
search is ready to make that many.

Main results: `Codec.collides_forText`, `Codec.branded_forText`.
-/

namespace TemplateTidy

/-! ## The parts of a text -/

namespace Text

/-- All parts of a text. -/
def parts (s : Text) : List Text :=
  s.tails.flatMap List.inits

/-- The parts of a text are what occurs in it. -/
theorem mem_parts {f s : Text} : f ∈ parts s ↔ f <:+: s := by
  rw [List.infix_iff_prefix_suffix, parts, List.mem_flatMap]
  constructor
  · rintro ⟨t, ht, hf⟩
    exact ⟨t, (List.mem_inits _ _).mp hf, (List.mem_tails _ _).mp ht⟩
  · rintro ⟨t, hf, ht⟩
    exact ⟨t, (List.mem_tails _ _).mpr ht, (List.mem_inits _ _).mpr hf⟩

/-- A text has no more parts than there are pairs of places in it. -/
theorem length_parts_le (s : Text) : (parts s).length ≤ (s.length + 1) * (s.length + 1) := by
  rw [parts, List.length_flatMap]
  have hbound : ∀ n ∈ s.tails.map fun t => t.inits.length, n ≤ s.length + 1 := by
    intro n hn
    obtain ⟨t, ht, rfl⟩ := List.mem_map.mp hn
    rw [List.length_inits]
    exact Nat.succ_le_succ ((List.mem_tails _ _).mp ht).length_le
  calc (s.tails.map fun t => t.inits.length).sum
      ≤ (s.tails.map fun t => t.inits.length).length * (s.length + 1) :=
        List.sum_le_card_nsmul _ _ hbound
    _ = (s.length + 1) * (s.length + 1) := by rw [List.length_map, List.length_tails]

end Text

namespace Codec

/-! ## Draws that collide -/

/-- The nonces that collide with a text. -/
def spoilt (s : Text) : List Text :=
  (Text.parts s).map List.tail ++ (Text.parts s).map List.dropLast

/-- A nonce that collides with a text is one of those that do. -/
theorem nonce_mem_spoilt {k : Codec} {s : Text} (h : k.collides s = true) : k.nonce ∈ spoilt s := by
  rw [collides, Bool.or_eq_true, Text.occursIn_iff, Text.occursIn_iff] at h
  rw [spoilt, List.mem_append, List.mem_map, List.mem_map]
  rcases h with h | h
  · exact .inl ⟨_, Text.mem_parts.mpr h, rfl⟩
  · exact .inr ⟨_, Text.mem_parts.mpr h, by simp⟩

/-- No more nonces collide with a text than the search has patience for. -/
theorem length_spoilt_le (s : Text) : (spoilt s).length ≤ patience s := by
  have hparts := Text.length_parts_le s
  rw [spoilt, List.length_append, List.length_map, List.length_map, patience, Nat.mul_assoc]
  omega

/-- Different draws make different nonces. -/
theorem nonce_drawn_inj {draws : Draws} {i j : Nat}
    (h : (drawn draws i).nonce = (drawn draws j).nonce) : i = j :=
  draws.distinct (List.append_cancel_left h)

/-- Not all of a row of draws collide that is longer than the patience. -/
theorem exists_not_collides (draws : Draws) (i : Nat) (s : Text) :
    ∃ j ≤ patience s, (drawn draws (i + j)).collides s = false := by
  by_contra hall
  have hcollides : ∀ j ≤ patience s, (drawn draws (i + j)).collides s = true := by
    intro j hj
    rw [← Bool.not_eq_false]
    exact fun hfree => hall ⟨j, hj, hfree⟩
  -- the nonces of the row all differ, and all of them are spoilt
  have hnodup : ((List.range (patience s + 1)).map fun j => (drawn draws (i + j)).nonce).Nodup :=
    List.nodup_range.map fun a b hab => Nat.add_left_cancel (nonce_drawn_inj hab)
  have hspoilt : ((List.range (patience s + 1)).map fun j => (drawn draws (i + j)).nonce) ⊆
      spoilt s := by
    intro nonce hmem
    obtain ⟨j, hj, rfl⟩ := List.mem_map.mp hmem
    exact nonce_mem_spoilt (hcollides j (Nat.lt_succ_iff.mp (List.mem_range.mp hj)))
  have hlength := (List.subperm_of_subset hnodup hspoilt).length_le
  rw [List.length_map, List.length_range] at hlength
  exact absurd (length_spoilt_le s) (by omega)

/-! ## The search -/

/-- The search stops at a draw that does not collide if one is within reach. -/
theorem collides_search {draws : Draws} {s : Text} {fuel i : Nat}
    (h : ∃ j ≤ fuel, (drawn draws (i + j)).collides s = false) :
    (search draws s fuel i).1.collides s = false := by
  obtain ⟨j, hj, hfree⟩ := h
  induction fuel generalizing i j with
  | zero =>
    obtain rfl : j = 0 := Nat.le_zero.mp hj
    exact hfree
  | succ fuel ih =>
    rw [search]
    split
    · rename_i hcollides
      -- this draw collides, so the one that does not is among those behind it
      cases j with
      | zero =>
        rw [Nat.add_zero, hcollides] at hfree
        exact Bool.noConfusion hfree
      | succ j =>
        rw [Nat.add_succ, ← Nat.succ_add] at hfree
        exact ih j (Nat.le_of_succ_le_succ hj) hfree
    · rename_i hfree
      exact Bool.eq_false_iff.mpr hfree

/-- A codec that is drawn is branded. -/
theorem branded_drawn (draws : Draws) (i : Nat) : (drawn draws i).Branded :=
  ⟨draws.digits i, rfl⟩

/-- The search ends with a branded codec. -/
theorem branded_search (draws : Draws) (s : Text) (fuel i : Nat) :
    (search draws s fuel i).1.Branded := by
  induction fuel generalizing i with
  | zero => exact branded_drawn draws i
  | succ fuel ih =>
    rw [search]
    split
    · exact ih (i + 1)
    · exact branded_drawn draws i

/-- **The codec chosen for a text does not collide with it.** -/
theorem collides_forText (draws : Draws) (draw : Nat) (s : Text) :
    (forText draws draw s).1.collides s = false := by
  rw [forText]
  split
  · exact collides_search (exists_not_collides draws draw s)
  · rename_i husual
    exact Bool.eq_false_iff.mpr husual

/-- The codec chosen for a text is branded. -/
theorem branded_forText (draws : Draws) (draw : Nat) (s : Text) :
    (forText draws draw s).1.Branded := by
  rw [forText]
  split
  · exact branded_search draws s _ draw
  · exact List.prefix_rfl

end Codec

end TemplateTidy
