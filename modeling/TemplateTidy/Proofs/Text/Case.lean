import TemplateTidy.Text.Case

/-!
# Characters without capital letters

Letter case is that of all of Unicode, but few letters beyond ASCII have a small letter
within it. So a character that is lowered to one of ASCII is, but for these, one of
ASCII, and one that is lowered to a character that is no letter is that character.

Main results: `toLower_of_smallLetter`, `Text.map_toLower_of_lower`, `eq_of_smallLetter`.
-/

namespace TemplateTidy

/-- The runs of small letters lead back into ASCII at one place only: the kelvin
sign is a capital `k`. -/
theorem smallRuns_beyond :
    ∀ r ∈ smallRuns, (0x80 : Int) ≤ r.first + r.shift ∨ r = ⟨0x212A, 0x212A, 1, -8383⟩ := by
  decide +kernel

/-- The character of a code point has this code point, if it is one at all. -/
theorem toNat_ofNat_of_ne {n : Nat} (h : Char.ofNat n ≠ '\x00') : (Char.ofNat n).toNat = n := by
  by_cases hn : n.isValidChar
  · have hvalid : Char.ofNat n = Char.ofNatAux n hn := dif_pos hn
    rw [hvalid]
    rfl
  · exact absurd (dif_neg hn) h

/-- A character whose small letter is `p` is one of ASCII, but for the dotted capital I and
unless `p` is a `k`, which is written beyond ASCII too. -/
theorem toLower_of_smallLetter_of_ne {p c : Char} (hp : p.toNat < 0x80)
    (hother : p ∉ ['\x00', 'k']) (hdot : c.toNat ≠ 0x130) (h : smallLetter c = p) :
    c.toLower = p := by
  simp only [List.mem_cons, List.not_mem_nil, or_false, not_or] at hother
  obtain ⟨hzero, hk⟩ := hother
  unfold smallLetter at h
  split at h
  · exact h
  · rename_i hc
    -- beyond ASCII a run of the table would have to lead to `p`
    exfalso
    cases himage : caseImage? smallRuns c.toNat with
    | none =>
      rw [himage] at h
      have hcp : c = p := h
      rw [hcp] at hc
      exact hc hp
    | some m =>
      rw [himage] at h
      have hmp : Char.ofNat m = p := h
      have hm : p.toNat = m := by
        rw [← hmp]
        exact toNat_ofNat_of_ne (hmp ▸ hzero)
      obtain ⟨r, hr, hrm⟩ := List.exists_of_findSome?_eq_some himage
      unfold CaseRun.image? at hrm
      split at hrm
      · rename_i hrange
        have hshift := Option.some.inj hrm
        rcases smallRuns_beyond r hr with hbeyond | rfl
        · omega
        · -- the kelvin sign
          have hsign : c.toNat = 0x212A := by
            have hfirst : 0x212A ≤ c.toNat := hrange.1
            have hlast : c.toNat ≤ 0x212A := hrange.2.1
            omega
          rw [hsign] at hshift
          have hmk : m = 0x6B := by simpa using hshift.symm
          rw [hmk] at hmp
          exact hk hmp.symm
      · cases hrm

/-- A character whose small letter is `p` is one of ASCII, unless `p` is a letter that
is written beyond ASCII too. -/
theorem toLower_of_smallLetter {p c : Char} (hp : p.toNat < 0x80) (hother : p ∉ ['\x00', 'i', 'k'])
    (h : smallLetter c = p) : c.toLower = p := by
  simp only [List.mem_cons, List.not_mem_nil, or_false, not_or] at hother
  obtain ⟨hzero, hi, hk⟩ := hother
  refine toLower_of_smallLetter_of_ne hp ?_ ?_ h
  · simp [hzero, hk]
  · intro hdot
    unfold smallLetter at h
    rw [hdot, if_neg (by decide), if_pos rfl] at h
    exact hi h.symm

/-- Lowering a text to one of ASCII goes character by character: the dotted capital I
leaves a mark beyond ASCII, and a sigma stays beyond it. -/
theorem Text.map_toLower_of_lower {s p : Text} (hp : ∀ c ∈ p, c.toNat < 0x80 ∧ c ∉ ['\x00', 'k'])
    (h : Text.lower s = p) : s.map Char.toLower = p := by
  unfold Text.lower at h
  generalize ([] : Text) = before at h
  induction s generalizing before p with
  | nil => exact h
  | cons c s ih =>
    rw [Text.lowerFrom] at h
    have hmem : ∀ d ∈ (if c.toNat = 0x3A3 then
        [if Text.endsAtSigma before s then Char.ofNat 0x3C2 else Char.ofNat 0x3C3]
        else smallForm c), d.toNat < 0x80 := by
      intro d hd
      exact (hp d (h ▸ List.mem_append_left _ hd)).1
    split at h
    · -- both forms of sigma lie beyond ASCII
      rename_i hsigma
      rw [if_pos hsigma] at hmem
      have hfirst := hmem _ (List.mem_singleton_self _)
      split at hfirst <;> exact absurd hfirst (by decide)
    · rename_i hsigma
      rw [if_neg hsigma] at hmem
      unfold smallForm at h hmem
      split at h
      · -- so does the mark that the dotted capital I leaves
        rename_i hdot
        rw [if_pos hdot] at hmem
        exact absurd (hmem (Char.ofNat 0x307) (by simp)) (by decide)
      · rename_i hdot
        subst h
        obtain ⟨hfirst, hrest⟩ := List.forall_mem_cons.mp hp
        rw [List.map_cons, ih hrest _ rfl,
          toLower_of_smallLetter_of_ne hfirst.1 hfirst.2 hdot rfl]
        rfl

/-- Nothing but a letter of ASCII is changed in lowering. -/
theorem eq_of_toLower {p c : Char} (hp : p.toNat < 97 ∨ 122 < p.toNat) (h : c.toLower = p) :
    c = p := by
  unfold Char.toLower at h
  split at h
  · rename_i hupper
    have hval : (c.val + ('a'.val - 'A'.val)).toNat = p.toNat := congrArg (·.val.toNat) h
    have hfirst : 'A'.val.toNat = 65 := rfl
    have hlast : 'Z'.val.toNat = 90 := rfl
    have hshift : ('a'.val - 'A'.val).toNat = 32 := rfl
    simp only [UInt32.le_iff_toNat_le, ge_iff_le, UInt32.toNat_add] at hupper hval
    omega
  · exact h

/-- A character of ASCII that is no letter is the only one that is lowered to it. -/
theorem eq_of_smallLetter {p c : Char} (hp : p.toNat < 97 ∧ p ≠ '\x00') (h : smallLetter c = p) :
    c = p := by
  have hother : p ∉ ['\x00', 'i', 'k'] := by
    simp only [List.mem_cons, List.not_mem_nil, or_false, not_or]
    refine ⟨hp.2, ?_, ?_⟩ <;> rintro rfl <;> exact absurd hp.1 (by decide)
  exact eq_of_toLower (.inl hp.1) (toLower_of_smallLetter (by omega) hother h)

end TemplateTidy
