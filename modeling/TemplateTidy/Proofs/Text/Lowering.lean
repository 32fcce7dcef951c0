import TemplateTidy.Proofs.Text.Case
import TemplateTidy.Proofs.Text.Trim

/-!
# What lowering leads to

A text in small letters is lowered no further. That takes two facts about the table of
small letters. What a run of it leads to is outside of all runs: it lies before or behind
another one, or between two of its code points (`CaseRun.Misses`). And no run leads to
the characters that have a rule of their own, the dotted capital I and the capital sigma,
or to white space. So a text that has been trimmed stays trimmed when it is lowered.

Main results: `Text.lower_lower`, `Text.trim_lower_trim`.
-/

namespace TemplateTidy

/-! ## Runs of the table -/

namespace CaseRun

/-- The least code point that a run leads to. -/
def low (r : CaseRun) : Nat :=
  (r.first + r.shift).toNat

/-- The greatest code point that a run leads to. -/
def high (r : CaseRun) : Nat :=
  (r.last + r.shift).toNat

/-- What a run leads to lies before or behind another one, or between two of its code
points. -/
def misses (r other : CaseRun) : Bool :=
  Nat.blt r.high other.first || Nat.blt other.last r.low ||
    (other.step == 2 && (r.first == r.last || r.step == 2) && r.low != 0 &&
      (r.low + other.first) % 2 == 1)

/-- The run of one code point that is not moved. -/
def single (n : Nat) : CaseRun :=
  ⟨n, n, 1, 0⟩

/-- What a run leads to is not moved by a run that it misses. -/
theorem image?_eq_none_of_misses {r other : CaseRun} (h : r.misses other = true) {n m : Nat}
    (hm : r.image? n = some m) : other.image? m = none := by
  unfold image? at hm ⊢
  split at hm
  · rename_i hn
    obtain ⟨hfirst, hlast, hstep⟩ := hn
    have hshift : m = (n + r.shift).toNat := (Option.some.inj hm).symm
    refine if_neg fun hother => ?_
    obtain ⟨hlow, hhigh, hodd⟩ := hother
    simp only [misses, low, high, Nat.blt_eq, Bool.or_eq_true, Bool.and_eq_true, beq_iff_eq,
      bne_iff_ne, ne_eq] at h
    rcases h with (h | h) | ⟨⟨⟨htwo, hsteps⟩, hzero⟩, hparity⟩
    · omega
    · omega
    · -- both go in steps of two, and they never meet
      rw [htwo] at hodd
      rcases hsteps with hone | htwo'
      · omega
      · rw [htwo'] at hstep
        omega
  · cases hm

end CaseRun

/-- Code points beyond ASCII that no run leads to: the dotted capital I, the capital sigma,
and white space. -/
def unreached : List Nat :=
  [0x130, 0x3A3, 0x85, 0xA0, 0x1680, 0x2000, 0x2001, 0x2002, 0x2003, 0x2004, 0x2005, 0x2006,
   0x2007, 0x2008, 0x2009, 0x200A, 0x2028, 0x2029, 0x202F, 0x205F, 0x3000]

/-- White space beyond ASCII is led to by no run. -/
theorem mem_unreached_of_isBlank {c : Char} (hc : isBlank c = true) (hascii : ¬ c.toNat < 0x80) :
    c.toNat ∈ unreached := by
  unfold isBlank at hc
  rw [if_neg hascii] at hc
  simp only [Bool.or_eq_true, beq_iff_eq, Bool.and_eq_true, decide_eq_true_eq] at hc
  simp only [unreached, List.mem_cons, List.not_mem_nil, or_false]
  omega

/-- Every run of the table misses all runs, and the code points that are unreached. -/
theorem smallRuns_misses :
    (smallRuns.all fun r => (smallRuns ++ unreached.map CaseRun.single).all r.misses) = true := by
  decide +kernel

/-- A run leads neither to another run nor to what is not reached. -/
theorem of_caseImage? {n m : Nat} (h : caseImage? smallRuns n = some m) :
    caseImage? smallRuns m = none ∧ m ∉ unreached := by
  obtain ⟨r, hr, hm⟩ := List.exists_of_findSome?_eq_some h
  have hmisses := List.all_eq_true.mp (List.all_eq_true.mp smallRuns_misses r hr)
  constructor
  · refine List.findSome?_eq_none_iff.mpr fun other hother => ?_
    exact CaseRun.image?_eq_none_of_misses
      (hmisses other (List.mem_append_left _ hother)) hm
  · intro hmem
    have hsingle : (CaseRun.single m).image? m = none := CaseRun.image?_eq_none_of_misses
      (hmisses _ (List.mem_append_right _ (List.mem_map_of_mem hmem))) hm
    simp [CaseRun.single, CaseRun.image?] at hsingle

/-! ## Characters -/

/-- What holds of all code points of ASCII holds of its characters. -/
theorem of_ascii {P : Char → Prop} (h : ∀ n < 0x80, P (Char.ofNat n)) :
    ∀ c : Char, c.toNat < 0x80 → P c := by
  intro c hc
  have hofNat := h c.toNat hc
  rwa [Char.ofNat_toNat] at hofNat

/-- A small letter beyond ASCII is no other character, or comes out of the table. -/
theorem smallLetter_cases {c : Char} (hascii : ¬ c.toNat < 0x80) (hdot : c.toNat ≠ 0x130) :
    (caseImage? smallRuns c.toNat = none ∧ smallLetter c = c) ∨
      ∃ m, caseImage? smallRuns c.toNat = some m ∧ smallLetter c = Char.ofNat m := by
  have hsmall : smallLetter c = ((caseImage? smallRuns c.toNat).map Char.ofNat).getD c := by
    rw [smallLetter, if_neg hascii, if_neg hdot]
  rw [hsmall]
  cases caseImage? smallRuns c.toNat with
  | none => exact .inl ⟨rfl, rfl⟩
  | some m => exact .inr ⟨m, rfl, rfl⟩

/-- The capital letters of ASCII by their code points. -/
theorem isUpper_iff {c : Char} : c.isUpper = true ↔ 65 ≤ c.toNat ∧ c.toNat ≤ 90 := by
  show decide (c.val ≥ 'A'.val ∧ c.val ≤ 'Z'.val) = true ↔ _
  rw [decide_eq_true_iff, ge_iff_le, UInt32.le_iff_toNat_le, UInt32.le_iff_toNat_le]
  exact Iff.rfl

/-- A capital letter of ASCII is lowered to another character. -/
theorem toLower_ne {c : Char} (hc : c.isUpper = true) : c.toLower ≠ c := by
  intro h
  have hupper : c.val ≥ 'A'.val ∧ c.val ≤ 'Z'.val := of_decide_eq_true hc
  have hlower : c.toLower.val = c.val + ('a'.val - 'A'.val) :=
    congrArg Char.val (dif_pos hupper)
  have hval : (c.val + ('a'.val - 'A'.val)).toNat = c.val.toNat := by
    rw [← hlower, h]
  have hshift : ('a'.val - 'A'.val).toNat = 32 := rfl
  rw [UInt32.toNat_add, hshift] at hval
  have hlt : c.val.toNat ≤ 90 := (isUpper_iff.mp hc).2
  omega

/-- No character is lowered to a capital letter of ASCII. -/
theorem isUpper_smallLetter (c : Char) : (smallLetter c).isUpper = false := by
  cases hupper : (smallLetter c).isUpper with
  | false => rfl
  | true =>
    -- the letter would be lowered to itself, but a capital letter is not
    have hrange := isUpper_iff.mp hupper
    have hzero : smallLetter c ≠ '\x00' := by
      intro hzero
      rw [hzero] at hupper
      exact absurd hupper (by decide)
    have hself : c = smallLetter c := eq_of_smallLetter ⟨by omega, hzero⟩ rfl
    have hascii : smallLetter c = c.toLower := if_pos (by rw [hself]; omega)
    rw [← hself] at hupper hascii
    exact absurd hascii.symm (toLower_ne hupper)

/-- A character that is no capital letter of ASCII is its own small letter within ASCII. -/
theorem smallLetter_of_isUpper_eq_false {c : Char} (hascii : c.toNat < 0x80)
    (hc : c.isUpper = false) : smallLetter c = c :=
  (if_pos hascii).trans (dif_neg (of_decide_eq_false hc))

/-- What no run leads to is only lowered to by itself. -/
theorem eq_of_smallLetter_of_mem {c d : Char} (hd : d.toNat ∈ unreached)
    (h : smallLetter c = d) : c = d := by
  have hbeyond : ∀ n ∈ unreached, ¬ n < 0x80 := by decide
  by_cases hascii : c.toNat < 0x80
  · have hlower : c.toLower = d := (if_pos hascii).symm.trans h
    refine eq_of_toLower (.inr ?_) hlower
    have hd' := hbeyond _ hd
    omega
  by_cases hdot : c.toNat = 0x130
  · rw [smallLetter, if_neg hascii, if_pos hdot] at h
    rw [← h] at hd
    exact absurd hd (by decide)
  rcases smallLetter_cases hascii hdot with ⟨-, hself⟩ | ⟨m, himage, hm⟩
  · exact hself.symm.trans h
  · rw [hm] at h
    -- a number that is no character is read as zero, which is not one of them
    have hne : Char.ofNat m ≠ '\x00' := by
      intro hzero
      rw [h] at hzero
      rw [hzero] at hd
      exact absurd hd (by decide)
    have hnat := toNat_ofNat_of_ne hne
    rw [h] at hnat
    exact absurd (hnat ▸ hd) (of_caseImage? himage).2

/-- **A small letter is its own small letter.** -/
theorem smallLetter_smallLetter (c : Char) : smallLetter (smallLetter c) = smallLetter c := by
  -- within ASCII every character is looked at, beyond it the table decides
  by_cases hascii : c.toNat < 0x80
  · have hall : ∀ c : Char, c.toNat < 0x80 → smallLetter (smallLetter c) = smallLetter c :=
      of_ascii (by decide +kernel)
    exact hall c hascii
  by_cases hdot : c.toNat = 0x130
  · have hi : smallLetter c = 'i' := (if_neg hascii).trans (if_pos hdot)
    rw [hi]
    decide
  rcases smallLetter_cases hascii hdot with ⟨-, hself⟩ | ⟨m, himage, hm⟩
  · rw [hself, hself]
  obtain ⟨hnone, hunreached⟩ := of_caseImage? himage
  by_cases hzero : Char.ofNat m = '\x00'
  · rw [hm, hzero]
    decide
  have hnat := toNat_ofNat_of_ne hzero
  by_cases hlow : m < 0x80
  · -- the Kelvin sign comes back to ASCII, but not to a capital letter
    refine smallLetter_of_isUpper_eq_false ?_ (isUpper_smallLetter c)
    rwa [hm, hnat]
  · have hm130 : m ≠ 0x130 := by
      rintro rfl
      exact hunreached (by decide)
    rw [hm]
    rcases smallLetter_cases (c := Char.ofNat m) (by rwa [hnat]) (by rwa [hnat]) with
      ⟨-, hself⟩ | ⟨m', himage', -⟩
    · exact hself
    · rw [hnat, hnone] at himage'
      cases himage'

/-- What a character may be lowered to, wherever it stands. -/
def lowForms (c : Char) : Text :=
  if c.toNat = 0x3A3 then [Char.ofNat 0x3C2, Char.ofNat 0x3C3] else smallForm c

/-- The character is lowered to itself wherever it stands. -/
def IsLow (c : Char) : Prop :=
  c.toNat ≠ 0x3A3 ∧ smallForm c = [c]

instance (c : Char) : Decidable (IsLow c) :=
  inferInstanceAs (Decidable (_ ∧ _))

/-- A form of a character is its small letter, or belongs to one that has a rule of its own. -/
theorem mem_lowForms {c d : Char} (hd : d ∈ lowForms c) :
    d = smallLetter c ∧ c.toNat ∉ [0x130, 0x3A3] ∨
      d ∈ [Char.ofNat 0x3C2, Char.ofNat 0x3C3, 'i', Char.ofNat 0x307] := by
  rw [lowForms] at hd
  split at hd
  · refine .inr ?_
    simp only [List.mem_cons, List.not_mem_nil, or_false] at hd ⊢
    rcases hd with hd | hd <;> simp [hd]
  · rename_i hsigma
    rw [smallForm] at hd
    split at hd
    · refine .inr ?_
      simp only [List.mem_cons, List.not_mem_nil, or_false] at hd ⊢
      rcases hd with hd | hd <;> simp [hd]
    · rename_i hdot
      exact .inl ⟨List.mem_singleton.mp hd, by simp [hsigma, hdot]⟩

/-- What a character is lowered to is lowered to itself. -/
theorem isLow_of_mem_lowForms {c d : Char} (hd : d ∈ lowForms c) : IsLow d := by
  rcases mem_lowForms hd with ⟨rfl, hc⟩ | hd
  · have hne : ∀ n ∈ [0x130, 0x3A3], (smallLetter c).toNat ≠ n := by
      intro n hn hnat
      have hmem : (smallLetter c).toNat ∈ unreached := by
        have hall : ∀ n ∈ [0x130, 0x3A3], n ∈ unreached := by decide
        exact hnat ▸ hall n hn
      rw [← eq_of_smallLetter_of_mem hmem rfl] at hnat
      exact hc (hnat ▸ hn)
    refine ⟨hne 0x3A3 (by decide), ?_⟩
    rw [smallForm, if_neg (hne 0x130 (by decide)), smallLetter_smallLetter]
  · have hall : ∀ d ∈ [Char.ofNat 0x3C2, Char.ofNat 0x3C3, 'i', Char.ofNat 0x307], IsLow d := by
      decide
    exact hall d hd

/-- White space comes of white space only. -/
theorem isBlank_of_mem_lowForms {c d : Char} (hd : d ∈ lowForms c) (hblank : isBlank d = true) :
    isBlank c = true := by
  rcases mem_lowForms hd with ⟨rfl, -⟩ | hd
  · -- white space is the small letter of nothing else
    have hself : c = smallLetter c := by
      by_cases hascii : (smallLetter c).toNat < 0x80
      · have hall : ∀ d : Char, d.toNat < 0x80 → isBlank d = true →
            d.toNat < 97 ∧ d ≠ '\x00' :=
          of_ascii (by decide)
        exact eq_of_smallLetter (hall _ hascii hblank) rfl
      · exact eq_of_smallLetter_of_mem (mem_unreached_of_isBlank hblank hascii) rfl
    rwa [hself]
  · have hnone : ∀ d ∈ [Char.ofNat 0x3C2, Char.ofNat 0x3C3, 'i', Char.ofNat 0x307],
        isBlank d = false := by
      decide
    rw [hnone d hd] at hblank
    cases hblank

/-! ## Texts -/

namespace Text

/-- Lowering goes character by character, each to one of its forms. -/
theorem lowerFrom_cons (before : Text) (c : Char) (cs : Text) :
    ∃ form, form ≠ [] ∧ (∀ d ∈ form, d ∈ lowForms c) ∧
      lowerFrom before (c :: cs) = form ++ lowerFrom (c :: before) cs := by
  refine ⟨_, ?_, ?_, rfl⟩
  · split
    · simp
    · rw [smallForm]
      split <;> simp
  · rw [lowForms]
    split
    · split <;> simp
    · exact fun d hd => hd

/-- A character of the lowered text comes from one of the text. -/
theorem exists_of_mem_lower {s : Text} {d : Char} (hd : d ∈ lower s) :
    ∃ c ∈ s, d ∈ lowForms c := by
  rw [lower] at hd
  -- a sigma looks back, so the induction is for whatever stands before the text
  generalize ([] : Text) = before at hd
  induction s generalizing before with
  | nil => cases hd
  | cons c cs ih =>
    obtain ⟨form, -, hforms, heq⟩ := lowerFrom_cons before c cs
    rw [heq, List.mem_append] at hd
    rcases hd with hd | hd
    · exact ⟨c, List.mem_cons_self .., hforms d hd⟩
    · obtain ⟨c', hc', hd'⟩ := ih _ hd
      exact ⟨c', List.mem_cons_of_mem c hc', hd'⟩

/-- A text in small letters has no capital letter of ASCII. -/
theorem isUpper_of_mem_lower {s : Text} {c : Char} (hc : c ∈ lower s) : c.isUpper = false := by
  obtain ⟨d, -, hd⟩ := exists_of_mem_lower hc
  rcases mem_lowForms hd with ⟨rfl, -⟩ | hd
  · exact isUpper_smallLetter d
  · have hall : ∀ c ∈ [Char.ofNat 0x3C2, Char.ofNat 0x3C3, 'i', Char.ofNat 0x307],
        c.isUpper = false := by
      decide
    exact hall c hd

/-- A text of characters that are low is lowered to itself. -/
theorem lower_of_isLow {s : Text} (h : ∀ c ∈ s, IsLow c) : lower s = s := by
  rw [lower]
  generalize ([] : Text) = before
  induction s generalizing before with
  | nil => rfl
  | cons c cs ih =>
    obtain ⟨⟨hsigma, hform⟩, hcs⟩ := List.forall_mem_cons.mp h
    rw [lowerFrom, if_neg hsigma, hform, ih hcs, List.singleton_append]

/-- A text of ASCII is lowered character by character, whatever stands before it. -/
theorem lowerFrom_of_ascii {s : Text} (h : ∀ c ∈ s, c.toNat < 0x80) (before : Text) :
    lowerFrom before s = s.map Char.toLower := by
  induction s generalizing before with
  | nil => rfl
  | cons c cs ih =>
    obtain ⟨hc, hcs⟩ := List.forall_mem_cons.mp h
    have hform : smallForm c = [c.toLower] := by
      rw [smallForm, if_neg (by omega), smallLetter, if_pos hc]
    rw [lowerFrom, if_neg (by omega), hform, ih hcs, List.singleton_append, List.map_cons]

/-- **A text in small letters is lowered no further.** -/
theorem lower_lower (s : Text) : lower (lower s) = lower s := by
  refine lower_of_isLow fun d hd => ?_
  obtain ⟨c, -, hform⟩ := exists_of_mem_lower hd
  exact isLow_of_mem_lowForms hform

/-! ## Both ends of a text -/

/-- The lowered text begins with a form of the first character. -/
theorem exists_of_mem_head?_lower {s : Text} {d : Char} (hd : d ∈ (lower s).head?) :
    ∃ c ∈ s.head?, d ∈ lowForms c := by
  cases s with
  | nil => cases hd
  | cons c cs =>
    obtain ⟨form, hne, hforms, heq⟩ := lowerFrom_cons [] c cs
    rw [lower, heq, List.head?_append_of_ne_nil _ hne] at hd
    exact ⟨c, rfl, hforms d (List.mem_of_head? hd)⟩

/-- The lowered text ends with a form of the last character. -/
theorem exists_of_mem_getLast?_lower {s : Text} {d : Char} (hd : d ∈ (lower s).getLast?) :
    ∃ c ∈ s.getLast?, d ∈ lowForms c := by
  rw [lower] at hd
  generalize ([] : Text) = before at hd
  induction s generalizing before with
  | nil => cases hd
  | cons c cs ih =>
    obtain ⟨form, hne, hforms, heq⟩ := lowerFrom_cons before c cs
    rw [heq] at hd
    cases cs with
    | nil =>
      rw [lowerFrom, List.append_nil] at hd
      exact ⟨c, rfl, hforms d (List.mem_of_getLast? hd)⟩
    | cons c' cs =>
      -- the last character comes of a later one
      obtain ⟨form', hne', -, heq'⟩ := lowerFrom_cons (c :: before) c' cs
      have hlater : lowerFrom (c :: before) (c' :: cs) ≠ [] := by
        rw [heq']
        exact List.append_ne_nil_of_left_ne_nil hne' _
      rw [List.getLast?_append_of_ne_nil _ hlater] at hd
      obtain ⟨e, he, hform⟩ := ih _ hd
      exact ⟨e, he, hform⟩

/-- Only the empty text is lowered to nothing. -/
theorem lower_eq_nil_iff {s : Text} : lower s = [] ↔ s = [] := by
  cases s with
  | nil => exact ⟨fun _ => rfl, fun _ => rfl⟩
  | cons c cs =>
    obtain ⟨form, hne, -, heq⟩ := lowerFrom_cons [] c cs
    rw [lower, heq]
    simp [hne]

/-- A trimmed text does not begin with white space. -/
theorem isBlank_of_mem_head?_trim {s : Text} : ∀ c ∈ (trim s).head?, isBlank c = false := by
  intro c hc
  obtain ⟨rest, hrest⟩ := List.head?_eq_some_iff.mp hc
  have hcut := trimRight_append_trailing (trimLeft s)
  rw [show trimRight (trimLeft s) = c :: rest from hrest, List.cons_append] at hcut
  have hfirst := List.head?_dropWhile_not isBlank s
  rwa [show s.dropWhile isBlank = _ from hcut.symm] at hfirst

/-- A trimmed text does not end with white space. -/
theorem isBlank_of_mem_getLast?_trim {s : Text} : ∀ c ∈ (trim s).getLast?, isBlank c = false := by
  intro c hc
  obtain ⟨rest, hrest⟩ := List.getLast?_eq_some_iff.mp hc
  have htight : Tight (rest ++ [c]) := hrest ▸ tight_trimRight (trimLeft s)
  refine Bool.eq_false_iff.mpr fun hblank => ?_
  have hlast := List.rdropWhile_eq_self_iff.mp htight (by simp)
  rw [List.getLast_append_singleton] at hlast
  exact hlast hblank

/-- A text with no white space at either end is left as it is. -/
theorem trim_eq_self {s : Text} (hhead : ∀ c ∈ s.head?, isBlank c = false)
    (hlast : ∀ c ∈ s.getLast?, isBlank c = false) : trim s = s := by
  have hleft : trimLeft s = s := by
    cases s with
    | nil => rfl
    | cons c cs => exact List.dropWhile_cons_of_neg (by simp [hhead c rfl])
  rw [trim, hleft]
  refine List.rdropWhile_eq_self_iff.mpr fun hne hblank => ?_
  rw [hlast _ (List.getLast?_eq_some_getLast hne)] at hblank
  cases hblank

/-- **Lowering makes no white space** at the ends of a text. -/
theorem trim_lower_trim (s : Text) : trim (lower (trim s)) = lower (trim s) := by
  have hkept : ∀ c d, isBlank c = false → d ∈ lowForms c → isBlank d = false := by
    intro c d hc hd
    refine Bool.eq_false_iff.mpr fun hblank => ?_
    rw [isBlank_of_mem_lowForms hd hblank] at hc
    cases hc
  refine trim_eq_self (fun d hd => ?_) fun d hd => ?_
  · obtain ⟨c, hc, hform⟩ := exists_of_mem_head?_lower hd
    exact hkept c d (isBlank_of_mem_head?_trim c hc) hform
  · obtain ⟨c, hc, hform⟩ := exists_of_mem_getLast?_lower hd
    exact hkept c d (isBlank_of_mem_getLast?_trim c hc) hform

end Text

end TemplateTidy
