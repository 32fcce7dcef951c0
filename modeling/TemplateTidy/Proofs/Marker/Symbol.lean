import Mathlib.Data.List.Basic
import TemplateTidy.Proofs.Text.Occurrence

/-!
# Disguised text as a sequence of symbols

Disguised text is made of plain characters and of sentinels. A sequence of
*symbols* says which is which; its `flat` text is what stands on the page, its
`meaning` is what decoding is to make of it. The two are far apart: a sentinel
that is taken away brings its neighbours together, and one that white space has
got into (`torn`) is no sentinel any more and stays.

Every sentinel holds exactly one percent sign.

* What stands behind it, the *trail*, tells the sentinels apart: no trail
  begins with another one, except that the starts of the two kinds of comment
  share theirs and differ in the *lead* before the percent sign
  (`trail_eq_of_append_eq`, `same_of_lead_eq`).
* A plain percent sign is not taken for that of a sentinel, provided that no
  fragment of the sentinels occurs in the *sense* of the symbols — their
  meaning, with white space in place of what is torn (`nonce_prefix_sense`,
  `sense_eq_nonce`).
-/

namespace TemplateTidy

/-! ## Sentinels -/

/-- The sentinels: five escapes, then start and end of both kinds of comment. -/
inductive Sentinel where
  | doubleQuote
  | singleQuote
  | markupTerminator
  | codeTerminator
  | endTagOpen
  | markupStart
  | codeStart
  | markupEnd
  | codeEnd
  deriving DecidableEq

namespace Sentinel

/-- All sentinels. -/
def all : List Sentinel :=
  [doubleQuote, singleQuote, markupTerminator, codeTerminator, endTagOpen, markupStart, markupEnd,
   codeStart, codeEnd]

/-- The list of sentinels is complete. -/
theorem mem_all (a : Sentinel) : a ∈ all := by
  cases a <;> decide

/-- The sentinel as it stands on the page. Only the start of a comment in markup
may hold white space, the `gap`. -/
def text (k : Codec) (gap : Text) : Sentinel → Text
  | doubleQuote => k.doubleQuote
  | singleQuote => k.singleQuote
  | markupTerminator => k.markupTerminator
  | codeTerminator => k.codeTerminator
  | endTagOpen => k.endTagOpen
  | markupStart => ['<', '!', '-', '-'] ++ gap ++ k.startMark
  | codeStart => k.wrapStart .code
  | markupEnd => k.wrapEnd .markup
  | codeEnd => k.wrapEnd .code

/-- What the sentinel stands for. -/
def sense : Sentinel → Text
  | doubleQuote => ['"']
  | singleQuote => ['\'']
  | markupTerminator => ['-', '-', '>']
  | codeTerminator => ['*', '/']
  | endTagOpen => ['<', '/']
  | markupStart | codeStart | markupEnd | codeEnd => []

/-- What stands before the percent sign. -/
def lead (k : Codec) (gap : Text) : Sentinel → Text
  | doubleQuote | singleQuote => k.nonce
  | markupTerminator => ['-']
  | codeTerminator => ['*']
  | endTagOpen => ['<']
  | markupStart => ['<', '!', '-', '-'] ++ gap
  | codeStart => ['/', '*']
  | markupEnd | codeEnd => []

/-- The sentinel stands for a quote. -/
def isQuote : Sentinel → Bool
  | doubleQuote | singleQuote => true
  | _ => false

/-- The fixed letters behind the percent sign, or behind the nonce and the
hyphen there. -/
def label : Sentinel → String
  | doubleQuote => "quote#1"
  | singleQuote => "quote~2"
  | markupTerminator => "comment-end#->"
  | codeTerminator => "comment-end#/"
  | endTagOpen => "end-tag#/"
  | markupStart | codeStart => "comment-start#"
  | markupEnd => "comment-end#-->"
  | codeEnd => "comment-end#*/"

/-- No label begins with another one. -/
theorem label_eq_of_prefix {a b : Sentinel} (h : a.label.toList <+: b.label.toList) :
    a.label = b.label := by
  have hall : ∀ a ∈ all, ∀ b ∈ all, a.label.toList.isPrefixOf b.label.toList = true →
      a.label = b.label := by
    decide +kernel
  exact hall a (mem_all a) b (mem_all b) (List.isPrefixOf_iff_prefix.mpr h)

/-- Sentinels with one label are the same but for the starts of comments. -/
theorem eq_or_start_of_label_eq {a b : Sentinel} (h : a.label = b.label) :
    a = b ∨ (a = markupStart ∧ b = codeStart) ∨ (a = codeStart ∧ b = markupStart) := by
  have hall : ∀ a ∈ all, ∀ b ∈ all, a.label = b.label →
      a = b ∨ (a = markupStart ∧ b = codeStart) ∨ (a = codeStart ∧ b = markupStart) := by
    decide +kernel
  exact hall a (mem_all a) b (mem_all b) h

/-- No label holds white space. -/
theorem isBlank_of_mem_label {a : Sentinel} {c : Char} (hc : c ∈ a.label.toList) :
    isBlank c = false := by
  have hall : ∀ a ∈ all, (a.label.toList.all fun c => !isBlank c) = true := by
    decide +kernel
  have hblank := List.all_eq_true.mp (hall a (mem_all a)) c hc
  rwa [Bool.not_eq_true'] at hblank

/-- No label holds a percent sign. -/
theorem percent_notMem_label (a : Sentinel) : '%' ∉ a.label.toList := by
  have hall : ∀ a ∈ all, '%' ∉ a.label.toList := by
    decide +kernel
  exact hall a (mem_all a)

/-- No row of letters and digits at the end of a sentinel begins like a nonce. -/
theorem not_suffix_label (a : Sentinel) {y : Text} (hy : ('p' :: y).all Char.isAlphanum = true) :
    ¬ 'p' :: y <:+ a.label.toList := by
  have hall : ∀ a ∈ all, ∀ y ∈ a.label.toList.tails,
      (y.head? == some 'p' && y.all Char.isAlphanum) = false := by
    decide +kernel
  intro h
  have hfalse := hall a (mem_all a) _ ((List.mem_tails _ _).mpr h)
  rw [hy] at hfalse
  exact Bool.noConfusion hfalse

/-- What stands behind the percent sign. -/
def trail (k : Codec) (a : Sentinel) : Text :=
  if a.isQuote then a.label.toList else k.nonce ++ '-' :: a.label.toList

/-- A sentinel as it stands around its percent sign. -/
theorem text_eq (k : Codec) (gap : Text) (a : Sentinel) :
    a.text k gap = a.lead k gap ++ '%' :: a.trail k := by
  -- the mark of an end is followed by its own terminator, so brackets move there
  have hend : ∀ tail : Text,
      k.endMark ++ tail = '%' :: (k.nonce ++ ("-comment-end#".toList ++ tail)) :=
    fun tail => congrArg ('%' :: ·) (List.append_assoc ..)
  cases a with
  | markupStart => exact List.append_assoc ..
  | markupTerminator => exact congrArg ('-' :: ·) (hend "->".toList)
  | codeTerminator => exact congrArg ('*' :: ·) (hend "/".toList)
  | markupEnd => exact hend "-->".toList
  | codeEnd => exact hend "*/".toList
  | _ => rfl

end Sentinel

/-! ## Symbols -/

/-- A codec as they are made for texts: its nonce begins with the usual one. -/
def Codec.Branded (k : Codec) : Prop :=
  Codec.usual.nonce <+: k.nonce

/-- A unit of disguised text. -/
inductive Symbol where
  | plain (c : Char)
  /-- A whole sentinel, with the white space it may hold. -/
  | whole (a : Sentinel) (gap : Text)
  /-- What is left of a sentinel that white space has got into: all of it from
  the percent sign to the first blank. -/
  | torn (stem : Text) (blank : Char)
  deriving DecidableEq

namespace Symbol

/-- The symbol as it stands on the page. -/
def text (k : Codec) : Symbol → Text
  | plain c => [c]
  | whole a gap => a.text k gap
  | torn stem blank => '%' :: k.nonce ++ '-' :: stem ++ [blank]

/-- What the symbol stands for, with a blank for what is torn. -/
def sense : Symbol → Text
  | plain c => [c]
  | whole a _ => a.sense
  | torn _ blank => [blank]

/-- What decoding makes of the symbol: it leaves alone what is torn. -/
def meaning (k : Codec) : Symbol → Text
  | plain c => [c]
  | whole a _ => a.sense
  | torn stem blank => (torn stem blank).text k

/-- The text of a sequence of symbols. -/
def flat (k : Codec) (syms : List Symbol) : Text :=
  syms.flatMap (text k)

/-- How much of a sentinel can be left before the first blank. -/
def stumps : List Text :=
  ["comment-end#", "comment-end#-", "comment-end#--", "comment-end#*", "end-tag#"].map
    String.toList

/-- Blanks are where the symbol says they are. -/
def Valid : Symbol → Prop
  | plain _ => True
  | whole _ gap => gap.all isBlank = true
  | torn stem blank => stem ∈ stumps ∧ isBlank blank = true

/-- The symbol is as encoding leaves it: valid and not torn. -/
def Fresh : Symbol → Prop
  | plain _ => True
  | whole _ gap => gap.all isBlank = true
  | torn _ _ => False

/-- A fresh symbol is valid. -/
theorem Fresh.valid {σ : Symbol} (h : σ.Fresh) : σ.Valid := by
  cases σ with
  | plain c => trivial
  | whole a gap => exact h
  | torn stem blank => exact h.elim

/-- Decoding makes of a fresh symbol what it stands for. -/
theorem Fresh.meaning_eq {σ : Symbol} (h : σ.Fresh) (k : Codec) : σ.meaning k = σ.sense := by
  cases σ with
  | plain c => rfl
  | whole a gap => rfl
  | torn stem blank => exact h.elim

@[simp] theorem flat_nil (k : Codec) : flat k [] = [] := rfl

@[simp] theorem flat_cons (k : Codec) (σ : Symbol) (syms : List Symbol) :
    flat k (σ :: syms) = σ.text k ++ flat k syms := rfl

@[simp] theorem flat_append (k : Codec) (a b : List Symbol) :
    flat k (a ++ b) = flat k a ++ flat k b :=
  List.flatMap_append

/-- Plain characters stand for themselves in every reading that leaves them. -/
theorem flatMap_map_plain {f : Symbol → Text} (hf : ∀ c, f (plain c) = [c]) (s : Text) :
    (s.map plain).flatMap f = s := by
  induction s with
  | nil => rfl
  | cons c s ih => rw [List.map_cons, List.flatMap_cons, ih, hf, List.singleton_append]

@[simp] theorem flat_map_plain (k : Codec) (s : Text) : flat k (s.map plain) = s :=
  flatMap_map_plain (fun _ => rfl) s

@[simp] theorem sense_map_plain (s : Text) : (s.map plain).flatMap sense = s :=
  flatMap_map_plain (fun _ => rfl) s

@[simp] theorem meaning_map_plain (k : Codec) (s : Text) : (s.map plain).flatMap (meaning k) = s :=
  flatMap_map_plain (fun _ => rfl) s

/-! ## Lead and trail -/

/-- What stands before the percent sign. -/
def lead (k : Codec) : Symbol → Text
  | whole a gap => a.lead k gap
  | _ => []

/-- What stands behind the percent sign. -/
def trail (k : Codec) : Symbol → Text
  | plain _ => []
  | whole a _ => a.trail k
  | torn stem blank => k.nonce ++ '-' :: stem ++ [blank]

/-- The symbol is one plain character. -/
def isPlain : Symbol → Bool
  | plain _ => true
  | _ => false

/-- A plain symbol is one character. -/
theorem exists_of_isPlain {σ : Symbol} (h : σ.isPlain = true) : ∃ c, σ = plain c := by
  cases σ with
  | plain c => exact ⟨c, rfl⟩
  | whole a gap => exact Bool.noConfusion h
  | torn stem blank => exact Bool.noConfusion h

/-- A symbol that is not plain as it stands around its percent sign. -/
theorem text_eq (k : Codec) {σ : Symbol} (hσ : σ.isPlain = false) :
    σ.text k = σ.lead k ++ '%' :: σ.trail k := by
  cases σ with
  | plain c => exact Bool.noConfusion hσ
  | whole a gap => exact Sentinel.text_eq k gap a
  | torn stem blank => rfl

/-- Every symbol has a text. -/
theorem text_ne_nil (k : Codec) (σ : Symbol) : σ.text k ≠ [] := by
  cases hσ : σ.isPlain with
  | true =>
    obtain ⟨c, rfl⟩ := exists_of_isPlain hσ
    exact List.cons_ne_nil c []
  | false => simp [text_eq k hσ]

end Symbol

/-! ## The characters of a nonce, and blanks -/

namespace Codec

/-- A nonce has letters and digits only. -/
theorem isAlphanum_of_mem_nonce (k : Codec) {c : Char} (hc : c ∈ k.nonce) :
    c.isAlphanum = true :=
  List.all_eq_true.mp k.valid.2 c hc

/-- A character that is no letter or digit does not occur in a nonce. -/
theorem notMem_nonce (k : Codec) {c : Char} (hc : c.isAlphanum = false) : c ∉ k.nonce := by
  intro hmem
  rw [k.isAlphanum_of_mem_nonce hmem] at hc
  exact Bool.noConfusion hc

/-- A branded nonce begins with the letter of the usual one. -/
theorem Branded.nonce_eq {k : Codec} (hk : k.Branded) : ∃ rest, k.nonce = 'p' :: rest := by
  obtain ⟨rest, hrest⟩ := hk
  exact ⟨"cs".toList ++ rest, by rw [← hrest]; rfl⟩

end Codec

/-- White space is no solid character. -/
theorem blank_ne {b c : Char} (hb : isBlank b = true) (hc : isBlank c = false) : b ≠ c := by
  rintro rfl
  rw [hb] at hc
  exact Bool.noConfusion hc

/-- No blank is a letter or digit. -/
theorem isAlphanum_of_isBlank {c : Char} (h : isBlank c = true) : c.isAlphanum = false := by
  rw [Bool.eq_false_iff]
  intro hc
  -- letters and digits lie between `0` and `z`, where there are no blanks
  have hrange : 48 ≤ c.val.toNat ∧ c.val.toNat ≤ 122 := by
    change (decide ('A'.val ≤ c.val ∧ c.val ≤ 'Z'.val) ||
      ('a'.val ≤ c.val && c.val ≤ 'z'.val) || ('0'.val ≤ c.val && c.val ≤ '9'.val)) = true at hc
    simp only [Bool.or_eq_true, Bool.and_eq_true, decide_eq_true_eq, UInt32.le_iff_toNat_le] at hc
    rcases hc with (⟨hlo, hhi⟩ | ⟨hlo, hhi⟩) | ⟨hlo, hhi⟩ <;>
      exact ⟨Nat.le_trans (by decide) hlo, Nat.le_trans hhi (by decide)⟩
  simp only [isBlank, Bool.or_eq_true, Bool.and_eq_true, decide_eq_true_eq, beq_iff_eq,
    Bool.ite_eq_true_distrib, show c.toNat = c.val.toNat from rfl] at h
  split at h <;> omega

/-- No solid character lies in white space. -/
theorem notMem_of_all_isBlank {gap : Text} {c : Char} (hgap : gap.all isBlank = true)
    (hc : isBlank c = false) : c ∉ gap := by
  intro hmem
  exact blank_ne (List.all_eq_true.mp hgap c hmem) hc rfl

/-- Where two rows of characters that pass a test end at characters that do not,
they end together. -/
theorem row_eq_of_append_cons_eq {p : Char → Bool} {s t x y : Text} {b c : Char}
    (hs : s.all p = true) (ht : t.all p = true) (hb : p b = false) (hc : p c = false)
    (h : s ++ b :: x = t ++ c :: y) : s = t ∧ b = c := by
  have hrow : ∀ (s : Text) (b : Char) (x : Text), s.all p = true → p b = false →
      (s ++ b :: x).takeWhile p = s := by
    intro s b x hs hb
    rw [List.takeWhile_append_of_pos (List.all_eq_true.mp hs), List.takeWhile_cons_of_neg (by
      simp [hb]), List.append_nil]
  have hst : s = t := by
    rw [← hrow s b x hs hb, h, hrow t c y ht hc]
  subst hst
  exact ⟨rfl, (List.cons.inj (List.append_cancel_left h)).1⟩

namespace Symbol

/-! ## One percent sign a symbol -/

/-- What stands before the percent sign holds no other one. -/
theorem percent_notMem_lead (k : Codec) {σ : Symbol} (hσ : σ.Valid) : '%' ∉ σ.lead k := by
  have hn : '%' ∉ k.nonce := k.notMem_nonce (by decide)
  cases σ with
  | whole a gap =>
    have hgap : '%' ∉ gap := notMem_of_all_isBlank hσ (by decide)
    cases a <;> simp [lead, Sentinel.lead, hn, hgap]
  | plain _ | torn _ _ => simp [lead]

/-- What stands behind the percent sign holds no other one. -/
theorem percent_notMem_trail (k : Codec) {σ : Symbol} (hσ : σ.Valid) : '%' ∉ σ.trail k := by
  have hn : '%' ∉ k.nonce := k.notMem_nonce (by decide)
  cases σ with
  | plain c => simp [trail]
  | whole a gap =>
    have hlabel := a.percent_notMem_label
    rw [trail, Sentinel.trail]
    split
    · exact hlabel
    · rw [List.mem_append, List.mem_cons]
      rintro (h | h | h)
      · exact hn h
      · exact absurd h (by decide)
      · exact hlabel h
  | torn stem blank =>
    have hb : '%' ≠ blank := (blank_ne hσ.2 (by decide)).symm
    have hs : ∀ t ∈ stumps, '%' ∉ t := by decide +kernel
    simp [trail, hn, hb, hs stem hσ.1]

/-- The percent sign of a symbol is its only one. -/
theorem eq_lead_trail (k : Codec) {σ : Symbol} (hσ : σ.isPlain = false) (hv : σ.Valid)
    {u v : Text} (h : σ.text k = u ++ '%' :: v) : u = σ.lead k ∧ v = σ.trail k := by
  rw [text_eq k hσ] at h
  obtain ⟨hu, -, hv⟩ := (List.append_cons_inj_of_notMem (percent_notMem_lead k hv)
    (percent_notMem_trail k hv)).mp h
  exact ⟨hu.symm, hv.symm⟩

/-! ## The trails tell the sentinels apart -/

/-- A label is longer than what may be left of a sentinel. -/
theorem label_append_ne_stump (a : Sentinel) {t x y : Text} {b : Char} (ht : t ∈ stumps)
    (hb : isBlank b = true) : a.label.toList ++ x ≠ t ++ b :: y := by
  have hall : ∀ a ∈ Sentinel.all, ∀ t ∈ stumps, a.label.toList.isPrefixOf t = false := by
    decide +kernel
  have hnot : ¬ a.label.toList <+: t := by
    rw [← List.isPrefixOf_iff_prefix, hall a (Sentinel.mem_all a) t ht]
    exact Bool.noConfusion
  intro h
  rcases List.append_eq_append_iff.mp h with ⟨r, hr, -⟩ | ⟨r, hr, hby⟩
  · exact hnot ⟨r, hr.symm⟩
  · rcases List.cons_eq_append_iff.mp hby with ⟨rfl, -⟩ | ⟨r', rfl, -⟩
    · exact hnot ⟨[], by rw [hr, List.append_nil, List.append_nil]⟩
    · -- otherwise the blank stands inside the label
      have hblank := Sentinel.isBlank_of_mem_label (a := a) (c := b) (by simp [hr])
      exact blank_ne hb hblank rfl

/-- No trail begins with that of a sentinel unless they are the same. -/
theorem trail_eq_of_append_eq {k : Codec} (hk : k.Branded) {a : Sentinel} {σ : Symbol}
    (hσ : σ.isPlain = false) (hv : σ.Valid) {x y : Text}
    (h : a.trail k ++ x = σ.trail k ++ y) : ∃ b gap, σ = whole b gap ∧ a.label = b.label := by
  obtain ⟨rest, hp⟩ := hk.nonce_eq
  have hquote : ∀ b : Sentinel, b.isQuote = true → ∃ r, b.label.toList = 'q' :: r := by
    intro b hb
    cases b with
    | doubleQuote | singleQuote => exact ⟨_, rfl⟩
    | _ => exact Bool.noConfusion hb
  cases σ with
  | plain c => exact Bool.noConfusion hσ
  | torn stem blank =>
    -- a quote begins with another letter than the nonce, a label goes on too far
    exfalso
    unfold trail Sentinel.trail at h
    split at h
    · rename_i hq
      obtain ⟨r, hr⟩ := hquote a hq
      simp [hr, hp] at h
    · simp only [List.append_assoc, List.append_cancel_left_eq, List.cons_append,
        List.cons.injEq, true_and, List.nil_append] at h
      exact label_append_ne_stump a hv.1 hv.2 h
  | whole b gap =>
    -- either both trails begin with the nonce or neither does
    refine ⟨b, gap, rfl, ?_⟩
    have hlabels : a.label.toList ++ x = b.label.toList ++ y := by
      unfold trail Sentinel.trail at h
      cases haq : a.isQuote <;> cases hbq : b.isQuote <;> simp only [haq, hbq] at h
      · simpa using h
      · obtain ⟨r, hr⟩ := hquote b hbq
        simp [hr, hp] at h
      · obtain ⟨r, hr⟩ := hquote a haq
        simp [hr, hp] at h
      · simpa using h
    rcases List.prefix_or_prefix_of_prefix ⟨x, rfl⟩ ⟨y, hlabels.symm⟩ with hpre | hpre
    · exact Sentinel.label_eq_of_prefix hpre
    · exact (Sentinel.label_eq_of_prefix hpre).symm

/-- Where trails are the same, neither lead goes on before the other. -/
theorem same_of_lead_eq {k : Codec} {a b : Sentinel} {g g' p : Text}
    (hg : g.all isBlank = true) (hlabel : a.label = b.label) (h : a.lead k g = p ++ b.lead k g') :
    p = [] ∧ a = b := by
  rcases Sentinel.eq_or_start_of_label_eq hlabel with rfl | ⟨rfl, rfl⟩ | ⟨rfl, rfl⟩
  · refine ⟨?_, rfl⟩
    cases a with
    | markupStart =>
      -- a comment starts with the only `<` of its lead
      have hlt : '<' ∉ ['!', '-', '-'] ++ g := by
        simp [notMem_of_all_isBlank hg (show isBlank '<' = false by decide)]
      cases p with
      | nil => rfl
      | cons c p =>
        obtain ⟨-, hrest⟩ := List.cons.inj h
        exact absurd (by rw [show ['!', '-', '-'] ++ g = _ from hrest]; simp [Sentinel.lead]) hlt
    | _ => simpa [Sentinel.lead] using h
  · have hstar : '*' ∉ ['<', '!', '-', '-'] ++ g := by
      simp [notMem_of_all_isBlank hg (show isBlank '*' = false by decide)]
    exact absurd (by rw [show ['<', '!', '-', '-'] ++ g = _ from h]; simp [Sentinel.lead]) hstar
  · have hlt : '<' ∉ ['/', '*'] := by decide
    exact absurd (by rw [show ['/', '*'] = _ from h]; simp [Sentinel.lead]) hlt

/-! ## A plain percent sign is none of a sentinel -/

/-- A sentinel does not begin with a letter or digit, unless with the nonce and a
percent sign. -/
theorem text_eq_of_isAlphanum {k : Codec} {σ : Symbol} {c : Char} {r : Text}
    (hσ : σ.isPlain = false) (hc : c.isAlphanum = true) (h : σ.text k = c :: r) :
    ∃ r', σ.text k = k.nonce ++ '%' :: r' := by
  cases σ with
  | plain c => exact Bool.noConfusion hσ
  | torn stem blank =>
    obtain ⟨rfl, -⟩ := List.cons.inj h
    exact Bool.noConfusion hc
  | whole a gap =>
    have htext := text_eq k hσ
    cases a with
    | doubleQuote | singleQuote => exact ⟨_, htext⟩
    | _ =>
      rw [htext] at h
      obtain ⟨rfl, -⟩ := List.cons.inj h
      exact Bool.noConfusion hc

/-- Letters and digits followed by a hyphen are plain. -/
theorem prefix_sense_of_flat {k : Codec} {syms : List Symbol} {m z : Text}
    (hm : m.all Char.isAlphanum = true) (h : flat k syms = m ++ '-' :: z) :
    m <+: syms.flatMap sense := by
  induction syms generalizing m with
  | nil => simp at h
  | cons σ syms ih =>
    cases m with
    | nil => exact List.nil_prefix
    | cons c m =>
      obtain ⟨hc, hm'⟩ : c.isAlphanum = true ∧ m.all Char.isAlphanum = true := by
        simpa using hm
      cases hσ : σ.isPlain with
      | true =>
        obtain ⟨d, rfl⟩ := exists_of_isPlain hσ
        obtain ⟨rfl, hrest⟩ := List.cons.inj h
        rw [List.flatMap_cons, sense, List.singleton_append]
        exact List.cons_prefix_cons.mpr ⟨rfl, ih hm' hrest⟩
      | false =>
        -- only the escape of a quote begins so, and its nonce ends in a percent sign
        exfalso
        obtain ⟨d, r, htext⟩ := List.exists_cons_of_ne_nil (text_ne_nil k σ)
        rw [flat_cons, htext] at h
        obtain ⟨rfl, -⟩ := List.cons.inj h
        obtain ⟨r', hr'⟩ := text_eq_of_isAlphanum hσ hc htext
        rw [← htext, hr', List.append_assoc, List.cons_append] at h
        exact absurd (row_eq_of_append_cons_eq k.valid.2 hm (by decide) (by decide) h).2
          (by decide)

/-- **No false sentinel after a percent sign.** A nonce and a hyphen that stand
behind a symbol are plain. -/
theorem nonce_prefix_sense {k : Codec} {syms : List Symbol} {z : Text}
    (h : flat k syms = k.nonce ++ '-' :: z) : k.nonce <+: syms.flatMap sense :=
  prefix_sense_of_flat k.valid.2 h

/-- Symbols whose text is made of letters and digits are plain. -/
theorem sense_eq_flat {k : Codec} {syms : List Symbol}
    (h : (flat k syms).all Char.isAlphanum = true) : syms.flatMap sense = flat k syms := by
  induction syms with
  | nil => rfl
  | cons σ syms ih =>
    rw [flat_cons, List.all_append, Bool.and_eq_true] at h
    cases hσ : σ.isPlain with
    | true =>
      obtain ⟨c, rfl⟩ := exists_of_isPlain hσ
      rw [List.flatMap_cons, ih h.2, flat_cons, sense, text]
    | false =>
      -- every other symbol holds a percent sign
      have hpercent := List.all_eq_true.mp h.1 '%' (by simp [text_eq k hσ])
      exact Bool.noConfusion hpercent

/-- A row of letters and digits at the end of a symbol that begins like a nonce is
the whole of a plain symbol. -/
theorem eq_plain_of_suffix {k : Codec} {σ : Symbol} (hv : σ.Valid) {x y : Text}
    (h : σ.text k = x ++ 'p' :: y) (hy : ('p' :: y).all Char.isAlphanum = true) :
    σ.sense = 'p' :: y := by
  cases hσ : σ.isPlain with
  | true =>
    obtain ⟨c, rfl⟩ := exists_of_isPlain hσ
    rcases List.cons_eq_append_iff.mp h with ⟨rfl, hc⟩ | ⟨x', -, hx'⟩
    · rw [sense, hc]
    · simp at hx'
  | false =>
    exfalso
    have hother : ∀ c : Char, c.isAlphanum = false → c ∉ 'p' :: y := by
      intro c hc hmem
      rw [List.all_eq_true.mp hy c hmem] at hc
      exact Bool.noConfusion hc
    -- so the row lies behind the percent sign
    have hsuffix : 'p' :: y <:+ σ.trail k := by
      rw [text_eq k hσ] at h
      exact suffix_of_suffix_append_cons (hother '%' (by decide)) ⟨x, h.symm⟩
    cases σ with
    | plain c => exact Bool.noConfusion hσ
    | torn stem blank =>
      -- what is torn ends in a blank
      have hnil := suffix_of_suffix_append_cons (hother blank (isAlphanum_of_isBlank hv.2)) hsuffix
      simp at hnil
    | whole a gap =>
      rw [trail, Sentinel.trail] at hsuffix
      split at hsuffix
      · exact a.not_suffix_label hy hsuffix
      · exact a.not_suffix_label hy
          (suffix_of_suffix_append_cons (hother '-' (by decide)) hsuffix)

/-- **No false sentinel before a percent sign.** A nonce that ends where a symbol
begins, and begins inside another one, is plain. -/
theorem sense_eq_nonce {k : Codec} (hk : k.Branded) {σ : Symbol} {syms : List Symbol}
    (hv : σ.Valid) {x y : Text} (hy : y ≠ []) (htext : σ.text k = x ++ y)
    (h : k.nonce = y ++ flat k syms) : (σ :: syms).flatMap sense = k.nonce := by
  obtain ⟨rest, hp⟩ := hk.nonce_eq
  have hall := k.valid.2
  rw [h, List.all_append, Bool.and_eq_true] at hall
  cases y with
  | nil => exact absurd rfl hy
  | cons c y =>
    obtain ⟨rfl, -⟩ : 'p' = c ∧ _ := List.cons.inj (hp.symm.trans h)
    rw [List.flatMap_cons, sense_eq_flat hall.2, eq_plain_of_suffix hv htext hall.1, h]

end Symbol

end TemplateTidy
