import Mathlib.Data.List.Pairwise
import TemplateTidy.Context.Range

/-!
# Bisection over ranges

Whether an offset lies in one of several ranges is found by bisection: it is looked up
in the last range that starts at or before it. That is right if the ranges come one
after the other, since then every earlier range has ended by then.

Main result: `covers_iff`.
-/

namespace TemplateTidy.ContextRange

/-- The first range starts before the second and has ended where the second starts. -/
def Before (r r' : ContextRange) : Prop :=
  r.start < r'.start ∧ ∃ stop, r.stop = some stop ∧ stop ≤ r'.start

/-- A range holds the offsets from its start on, up to its end if it has one. -/
theorem contains_iff {r : ContextRange} {offset : Int} :
    r.contains offset = true ↔ r.start ≤ offset ∧ ∀ stop, r.stop = some stop → offset < stop := by
  rw [contains, Bool.and_eq_true, decide_eq_true_eq]
  cases r.stop <;> simp

/-- A range has ended where a later one starts. -/
theorem Before.not_contains {r r' : ContextRange} (h : Before r r') {offset : Int}
    (hoffset : r'.start ≤ offset) : r.contains offset = false := by
  obtain ⟨-, stop, hstop, hle⟩ := h
  rw [Bool.eq_false_iff]
  intro hcontains
  have hlt := (contains_iff.mp hcontains).2 stop hstop
  omega

/-- The place parts the ranges that start at or before the offset from those that start
after it. -/
structure Splits (ranges : List ContextRange) (offset : Int) (place : Nat) : Prop where
  le_length : place ≤ ranges.length
  before : ∀ j r, ranges[j]? = some r → j < place → r.start ≤ offset
  behind : ∀ j r, ranges[j]? = some r → place ≤ j → offset < r.start

/-- The starts ascend. -/
theorem start_le {ranges : List ContextRange} (h : ranges.Pairwise Before) {i j : Nat}
    {r r' : ContextRange} (hr : ranges[i]? = some r) (hr' : ranges[j]? = some r') (hij : i ≤ j) :
    r.start ≤ r'.start := by
  obtain ⟨hi, rfl⟩ := List.getElem?_eq_some_iff.mp hr
  obtain ⟨hj, rfl⟩ := List.getElem?_eq_some_iff.mp hr'
  rcases Nat.lt_or_eq_of_le hij with hlt | rfl
  · exact Int.le_of_lt (List.pairwise_iff_getElem.mp h i j hi hj hlt).1
  · exact Int.le_refl _

/-- Bisection narrows down a stretch of places outside of which the sides are known. -/
theorem splits_upperBound {ranges : List ContextRange} (h : ranges.Pairwise Before) (offset : Int)
    {lo hi : Nat} (hle : lo ≤ hi) (hhi : hi ≤ ranges.length)
    (hbefore : ∀ j r, ranges[j]? = some r → j < lo → r.start ≤ offset)
    (hbehind : ∀ j r, ranges[j]? = some r → hi ≤ j → offset < r.start) :
    Splits ranges offset (upperBound ranges offset lo hi) := by
  fun_induction upperBound ranges offset lo hi with
  | case1 lo hi hlt middle r hr hoffset ih =>
    -- the range in the middle starts after the offset, and so do all behind it
    refine ih (by omega) (by omega) hbefore ?_
    intro j r' hr' hj
    have hstart := start_le h hr hr' hj
    omega
  | case2 lo hi hlt middle r hr hoffset ih =>
    refine ih (by omega) hhi ?_ hbehind
    intro j r' hr' hj
    have hstart := start_le h hr' hr (by omega)
    omega
  | case3 lo hi hlt middle hnone =>
    -- the middle lies among the ranges
    have hlength := List.getElem?_eq_none_iff.mp hnone
    omega
  | case4 lo hi hlt =>
    refine ⟨by omega, hbefore, ?_⟩
    intro j r hr hj
    exact hbehind j r hr (by omega)

/-- **Bisection finds whether an offset is covered**, for ranges one after the other. -/
theorem covers_iff {ranges : List ContextRange} (h : ranges.Pairwise Before) (offset : Int) :
    covers ranges offset = true ↔ ∃ r ∈ ranges, r.contains offset = true := by
  have hsplits : Splits ranges offset (upperBound ranges offset 0 ranges.length) := by
    refine splits_upperBound h offset (Nat.zero_le _) (Nat.le_refl _) ?_ ?_
    · intro j r hr hj
      omega
    · intro j r hr hj
      have hlength := (List.getElem?_eq_some_iff.mp hr).1
      omega
  unfold covers
  generalize upperBound ranges offset 0 ranges.length = place at hsplits
  cases place with
  | zero =>
    -- all ranges start after the offset
    refine iff_of_false Bool.false_ne_true ?_
    rintro ⟨r, hr, hcontains⟩
    obtain ⟨j, hj⟩ := List.mem_iff_getElem?.mp hr
    have hstart := hsplits.behind j r hj (Nat.zero_le j)
    have hle := (contains_iff.mp hcontains).1
    omega
  | succ i =>
    have hi : i < ranges.length := hsplits.le_length
    have hlast : ranges[i]? = some ranges[i] := List.getElem?_eq_getElem hi
    have hstart := hsplits.before i _ hlast (Nat.lt_succ_self i)
    dsimp only
    rw [hlast, Option.any_some]
    constructor
    · intro hcontains
      exact ⟨_, List.getElem_mem hi, hcontains⟩
    · rintro ⟨r, hr, hcontains⟩
      obtain ⟨j, hj, rfl⟩ := List.mem_iff_getElem.mp hr
      rcases Nat.lt_trichotomy j i with hlt | rfl | hgt
      · -- an earlier range has ended where the last one starts
        have hbefore := List.pairwise_iff_getElem.mp h j i hj hi hlt
        rw [hbefore.not_contains hstart] at hcontains
        cases hcontains
      · exact hcontains
      · have hafter := hsplits.behind j _ (List.getElem?_eq_getElem hj) hgt
        have hle := (contains_iff.mp hcontains).1
        omega

end TemplateTidy.ContextRange
