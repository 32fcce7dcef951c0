import TemplateTidy.Proofs.Marker.Decode
import TemplateTidy.Proofs.Text.Spacing

/-!
# Symbols under changes of white space

Disguised text whose white space has been changed is disguised text again, as
long as the changes are sound: white space is put into a sentinel only before
its last character, and only if that is a slash or a bracket at a cut. Such a
sentinel is torn; all others are whole.

No fragment comes into the sense of the symbols. A fragment is made of letters,
digits and percent signs, so it lies between two separators, and white space is
left out only next to a separator (`Echo`).

Main results: `Symbol.exists_respells`, `Symbol.Respells.collides`.
-/

namespace TemplateTidy

/-! ## Fragments between separators -/

/-- The character may occur in a fragment of a sentinel. -/
def isFragment (c : Char) : Bool :=
  c.isAlphanum || c == '%'

/-- No fragment of a sentinel holds white space. -/
theorem isFragment_of_isBlank {c : Char} (hc : isBlank c = true) : isFragment c = false := by
  have hpercent : c ≠ '%' := blank_ne hc (by decide)
  simp [isFragment, isAlphanum_of_isBlank hc, hpercent]

/-- Every row of fragment characters in the second text, and every one at its
end, is such a row of the first text. -/
structure Echo (s t : Text) : Prop where
  suffix : ∀ f : Text, f.all isFragment = true → f <:+ t → f <:+ s
  within : ∀ f : Text, f.all isFragment = true → f <:+: t → f <:+: s

namespace Echo

/-- The empty text echoes any text. -/
theorem nil (s : Text) : Echo s [] where
  suffix f _ h := by
    rw [List.suffix_nil.mp h]
    exact List.nil_suffix
  within f _ h := by
    rw [List.infix_nil.mp h]
    exact List.nil_infix

/-- The same character behind both keeps the echo. -/
theorem concat {s t : Text} (h : Echo s t) (c : Char) : Echo (s ++ [c]) (t ++ [c]) := by
  have hsuffix : ∀ f : Text, f.all isFragment = true → f <:+ t ++ [c] → f <:+ s ++ [c] := by
    intro f hf hft
    rcases List.suffix_concat_iff.mp hft with rfl | ⟨f', rfl, hf'⟩
    · exact List.nil_suffix
    · rw [List.all_append, Bool.and_eq_true] at hf
      obtain ⟨a, ha⟩ := h.suffix f' hf.1 hf'
      exact ⟨a, by rw [← List.append_assoc, ha]⟩
  refine ⟨hsuffix, fun f hf hft => ?_⟩
  rcases List.infix_concat_iff.mp hft with hft | hft
  · exact (hsuffix f hf hft).isInfix
  · exact (h.within f hf hft).trans (List.prefix_append s [c]).isInfix

/-- A row of fragment characters does not end in a separator. -/
theorem eq_nil_of_suffix {f t : Text} {c : Char} (hf : f.all isFragment = true)
    (hc : isFragment c = false) (h : f <:+ t ++ [c]) : f = [] := by
  rcases List.suffix_concat_iff.mp h with rfl | ⟨f', rfl, -⟩
  · rfl
  · simp [hc] at hf

/-- Behind a separator the first text may go on as it likes. -/
theorem separate {s t : Text} (h : Echo s t) {c : Char} (hc : isFragment c = false) (x : Text) :
    Echo (s ++ x) (t ++ [c]) where
  suffix f hf hft := by
    rw [eq_nil_of_suffix hf hc hft]
    exact List.nil_suffix
  within f hf hft := by
    rcases List.infix_concat_iff.mp hft with hft | hft
    · rw [eq_nil_of_suffix hf hc hft]
      exact List.nil_infix
    · exact (h.within f hf hft).trans (List.prefix_append s x).isInfix

/-- More may follow in the first text where the second one ends outside of fragments. -/
theorem extend {s t : Text} (h : Echo s t) {c : Char} (hlast : t.getLast? = some c)
    (hc : isFragment c = false) (x : Text) : Echo (s ++ x) t where
  suffix f hf hft := by
    obtain ⟨t', rfl⟩ := List.getLast?_eq_some_iff.mp hlast
    rw [eq_nil_of_suffix hf hc hft]
    exact List.nil_suffix
  within f hf hft := (h.within f hf hft).trans (List.prefix_append s x).isInfix

/-- The same text behind both keeps the echo. -/
theorem append {s t : Text} (h : Echo s t) (x : Text) : Echo (s ++ x) (t ++ x) := by
  induction x using List.reverseRecOn with
  | nil => simpa using h
  | append_singleton x c ih =>
    rw [← List.append_assoc, ← List.append_assoc]
    exact ih.concat c

/-- Separators in the second text that the first does not have. -/
theorem separators {s t : Text} (h : Echo s t) {x : Text} (hx : ∀ c ∈ x, isFragment c = false) :
    Echo s (t ++ x) := by
  induction x using List.reverseRecOn with
  | nil => simpa using h
  | append_singleton x c ih =>
    have hrow := (ih fun d hd => hx d (List.mem_append_left _ hd)).separate
      (hx c (List.mem_append_right _ (List.mem_singleton_self c))) []
    rwa [List.append_nil, List.append_assoc] at hrow

/-- A codec that has no fragment in the first text has none in the second. -/
theorem collides {s t : Text} (h : Echo s t) {k : Codec} (hs : k.collides s = false) :
    k.collides t = false := by
  have hnonce : k.nonce.all isFragment = true := by
    rw [List.all_eq_true]
    intro c hc
    simp [isFragment, k.isAlphanum_of_mem_nonce hc]
  rw [Codec.collides_eq_false_iff] at hs ⊢
  refine ⟨fun ht => hs.1 (h.within _ ?_ ht), fun ht => hs.2 (h.within _ ?_ ht)⟩
  · rw [List.all_cons, hnonce]
    rfl
  · rw [List.all_append, hnonce]
    rfl

end Echo

open Edit (Trail)

/-! ## What is known of the senses behind a trail -/

/-- The senses of the source and of what is printed, behind a trail of edits: the
second echoes the first, but for white space dropped since the last character
that was kept. -/
structure Tracks (t : Trail) (s s' : Text) : Prop where
  echo : ∃ front rest, s = front ++ rest ∧ Echo front s' ∧ (t.dropped = false → rest = [])
  nothing : t.kept = none → s' = []
  equals : t.kept = some '=' → s'.getLast? = some '='

namespace Tracks

variable {cut : Text → Prop} {t : Trail} {s s' : Text}

/-- At the beginning both are empty. -/
theorem nil : Tracks (Trail.atEnd []) [] [] where
  echo := ⟨[], [], rfl, Echo.nil [], fun _ => rfl⟩
  nothing _ := rfl
  equals h := nomatch h

/-- What is printed does not collide if the source does not. -/
theorem collides (h : Tracks t s s') {k : Codec} (hs : k.collides s = false) :
    k.collides s' = false := by
  obtain ⟨front, rest, rfl, hecho, -⟩ := h.echo
  exact hecho.collides (Codec.collides_eq_false_of_infix (List.prefix_append ..).isInfix hs)

/-- Dropping a character prints nothing more. -/
theorem drop (h : Tracks t s s') (c : Char) : Tracks (t.after (.drop c)) (s ++ [c]) s' where
  echo := by
    obtain ⟨front, rest, rfl, hecho, -⟩ := h.echo
    exact ⟨front, rest ++ [c], by rw [List.append_assoc], hecho, fun hd => nomatch hd⟩
  nothing := h.nothing
  equals := h.equals

/-- White space before a character that is not next to an equals sign or a
bracket. -/
theorem echo_pad (h : Tracks t s s') {pad : Text} {c : Char} (he : Edit.Sound cut t (.keep pad c))
    (hc : c ≠ '=' ∧ c ≠ '>') : Echo s (s' ++ pad) := by
  obtain ⟨front, rest, rfl, hecho, hrest⟩ := h.echo
  obtain ⟨hblank, -, hclose⟩ := he
  cases pad with
  | nil =>
    rw [List.append_nil]
    cases hd : t.dropped with
    | false =>
      rw [hrest hd, List.append_nil]
      exact hecho
    | true =>
      -- white space is dropped for good only beside an equals sign or a bracket
      rcases hclose rfl hd with hnone | heq | heq | heq
      · rw [h.nothing hnone]
        exact Echo.nil _
      · exact hecho.extend (h.equals heq) (by decide) rest
      · exact absurd heq hc.1
      · exact absurd heq hc.2
  | cons b pad =>
    -- the first blank separates whatever was dropped
    rw [Text.blank_cons] at hblank
    have hfirst := hecho.separate (isFragment_of_isBlank hblank.1) rest
    have hmore := hfirst.separators (x := pad) fun d hd =>
      isFragment_of_isBlank (hblank.2.of_mem hd)
    rwa [List.append_assoc, List.singleton_append] at hmore

/-- One more character. -/
theorem echo_keep (h : Tracks t s s') {pad : Text} {c : Char}
    (he : Edit.Sound cut t (.keep pad c)) : Echo (s ++ [c]) (s' ++ pad ++ [c]) := by
  by_cases hc : c ≠ '=' ∧ c ≠ '>'
  · exact (h.echo_pad he hc).concat c
  · have hsep : isFragment c = false := by
      have hcases : c = '=' ∨ c = '>' := by
        by_contra hne
        exact hc (not_or.mp hne)
      rcases hcases with rfl | rfl <;> decide
    obtain ⟨front, rest, rfl, hecho, -⟩ := h.echo
    have hpad := hecho.separators (x := pad) fun d hd => isFragment_of_isBlank (he.1.of_mem hd)
    rw [List.append_assoc]
    exact hpad.separate hsep _

/-- **Keeping a character, maybe with white space before it**, prints an echo of the source. -/
theorem keep (h : Tracks t s s') {pad : Text} {c : Char} (he : Edit.Sound cut t (.keep pad c)) :
    Tracks (t.after (.keep pad c)) (s ++ [c]) (s' ++ pad ++ [c]) where
  echo := ⟨_, [], by rw [List.append_nil], h.echo_keep he, fun _ => rfl⟩
  nothing hk := nomatch hk
  equals hk := by
    rw [List.getLast?_concat]
    exact hk

/-- Once a character other than an equals sign is kept, an echo is all there is to
know. -/
theorem of_echo {source : Text} {c : Char} (hc : c ≠ '=') (h : Echo s s') :
    Tracks ⟨source, some c, false⟩ s s' where
  echo := ⟨s, [], by rw [List.append_nil], h, fun _ => rfl⟩
  nothing hk := nomatch hk
  equals hk := absurd (Option.some.inj hk) hc

end Tracks

/-! ## The edits of a sentinel -/

/-- Brackets, braces and slashes: white space may be put in beside them. -/
def breakers : Text := ['<', '\x7b', '/', '>', '\x7d']

/-- White space is never put in before the character or behind it, except at a
cut. -/
def isQuiet (c : Char) : Bool :=
  !isBlank c && !breakers.contains c

/-- The quiet characters are letters other than brackets, braces and slashes. -/
theorem isQuiet_iff {c : Char} : isQuiet c = true ↔
    isBlank c = false ∧ c ≠ '<' ∧ c ≠ '\x7b' ∧ c ≠ '/' ∧ c ≠ '>' ∧ c ≠ '\x7d' := by
  simp [isQuiet, breakers]

-- letters and digits are neither blanks nor breakers
/-- Letters and digits are quiet. -/
theorem isQuiet_of_isAlphanum {c : Char} (hc : c.isAlphanum = true) : isQuiet c = true := by
  have hblank : isBlank c = false := by
    rw [Bool.eq_false_iff]
    intro hb
    rw [isAlphanum_of_isBlank hb] at hc
    exact Bool.noConfusion hc
  have hother : breakers.contains c = false := by
    have hall : (breakers.all fun d => !d.isAlphanum) = true := by decide
    rw [Bool.eq_false_iff]
    intro hmem
    have hc' := List.all_eq_true.mp hall c (List.contains_iff_mem.mp hmem)
    rw [hc] at hc'
    exact Bool.noConfusion hc'
  rw [isQuiet, hblank, hother]
  rfl

/-- So is a nonce throughout. -/
theorem Codec.all_isQuiet_nonce (k : Codec) : k.nonce.all isQuiet = true := by
  rw [List.all_eq_true]
  intro c hc
  exact isQuiet_of_isAlphanum (k.isAlphanum_of_mem_nonce hc)

/-- Cuts are made before slashes and closing brackets. -/
def CutsTags (cut : Text → Prop) : Prop :=
  ∀ t, cut t → t.getLast? = some '/' ∨ t.getLast? = some '>'

/-- A cut is made before a slash or a closing bracket. -/
theorem CutsTags.last_eq {cut : Text → Prop} (hcut : CutsTags cut) {s : Text} {c : Char}
    (h : cut (s ++ [c])) : c = '/' ∨ c = '>' := by
  have hlast := hcut _ h
  rw [List.getLast?_concat] at hlast
  exact hlast.imp Option.some.inj Option.some.inj

namespace Edit

variable {cut : Text → Prop}

/-- Behind a character that is no blank and closes nothing, white space before
another one stands at a cut. -/
theorem cut_of_pad {t : Trail} {pad : Text} {c p : Char} (h : Sound cut t (keep pad c))
    (hlast : t.source.getLast? = some p) (hp : isBlank p = false ∧ p ≠ '>' ∧ p ≠ '\x7d')
    (hc : c ≠ '<' ∧ c ≠ '\x7b') (hpad : pad ≠ []) : cut (t.source ++ [c]) := by
  -- the places where white space may be put in, one by one
  rcases h.2.1 hpad with ⟨b, hb, hblank⟩ | h | h | h | h | h | h
  · rw [hlast] at hb
    obtain rfl := Option.some.inj hb
    rw [hp.1] at hblank
    exact Bool.noConfusion hblank
  · rw [h] at hlast
    cases hlast
  · rw [hlast] at h
    exact absurd (Option.some.inj h) hp.2.1
  · rw [hlast] at h
    exact absurd (Option.some.inj h) hp.2.2
  · exact absurd h hc.1
  · exact absurd h hc.2
  · exact h

/-- Quiet characters behind another one stay as they are. -/
theorem eq_copy_of_quiet (hcut : CutsTags cut) {es : List Edit} {t : Trail} {s : Text} {p : Char}
    (hsource : source es = s) (hs : s.all isQuiet = true) (hsound : AllSound cut t es)
    (hlast : t.source.getLast? = some p) (hp : isBlank p = false ∧ p ≠ '>' ∧ p ≠ '\x7d') :
    es = copy s := by
  induction es generalizing t s p with
  | nil =>
    subst hsource
    rfl
  | cons e es ih =>
    subst hsource
    cases e with
    | drop c =>
      -- only white space is dropped
      rw [source_drop, List.all_cons, Bool.and_eq_true] at hs
      have hblank : isBlank c = true := hsound.1
      simp [isQuiet, hblank] at hs
    | keep pad c =>
      rw [source_keep, List.all_cons, Bool.and_eq_true] at hs
      obtain ⟨hc, hrest⟩ := hs
      obtain ⟨hblank, hlt, hbrace, hslash, hgt, hclose⟩ := isQuiet_iff.mp hc
      have hpad : pad = [] := by
        by_contra hne
        -- a pad would stand at a cut, and cuts are made at other characters
        have hmade := cut_of_pad hsound.1 hlast hp ⟨hlt, hbrace⟩ hne
        rcases hcut.last_eq hmade with h | h
        · exact hslash h
        · exact hgt h
      have htail : es = copy (source es) :=
        ih rfl hrest hsound.2 (p := c) List.getLast?_concat ⟨hblank, hgt, hclose⟩
      rw [hpad]
      exact congrArg (keep [] c :: ·) htail

/-- The first character of a source has the first edit. -/
theorem source_eq_cons {es : List Edit} {c : Char} {s : Text} (h : source es = c :: s) :
    ∃ e es', es = e :: es' ∧ source [e] = [c] ∧ source es' = s := by
  cases es with
  | nil => simp at h
  | cons e es =>
    cases e with
    | drop d =>
      obtain ⟨rfl, hs⟩ := List.cons.inj h
      exact ⟨drop d, es, rfl, rfl, hs⟩
    | keep pad d =>
      obtain ⟨rfl, hs⟩ := List.cons.inj h
      exact ⟨keep pad d, es, rfl, rfl, hs⟩

/-- The edit of a character that is no blank keeps it. -/
theorem eq_keep {t : Trail} {e : Edit} {c : Char} (h : Sound cut t e) (hsource : source [e] = [c])
    (hc : isBlank c = false) : ∃ pad, e = keep pad c := by
  cases e with
  | drop d =>
    obtain ⟨rfl, -⟩ := List.cons.inj hsource
    have hblank : isBlank d = true := h
    rw [hc] at hblank
    exact Bool.noConfusion hblank
  | keep pad d =>
    obtain ⟨rfl, -⟩ := List.cons.inj hsource
    exact ⟨pad, rfl⟩

/-- The last character of a quiet row is quiet, or it is the first. -/
theorem exists_concat_of_quiet {first : Char} {mid : Text}
    (hfirst : isBlank first = false ∧ first ≠ '>' ∧ first ≠ '\x7d')
    (hmid : mid.all isQuiet = true) :
    ∃ u p, first :: mid = u ++ [p] ∧ isBlank p = false ∧ p ≠ '>' ∧ p ≠ '\x7d' := by
  rcases List.eq_nil_or_concat mid with rfl | ⟨u, p, rfl⟩
  · exact ⟨[], first, rfl, hfirst⟩
  · rw [List.concat_eq_append, List.all_append, Bool.and_eq_true] at hmid
    have hp : isQuiet p = true := by simpa using hmid.2
    obtain ⟨hblank, -, -, -, hgt, hclose⟩ := isQuiet_iff.mp hp
    exact ⟨first :: u, p, by rw [List.concat_eq_append, List.cons_append], hblank, hgt, hclose⟩

/-- **The edits of a word of quiet characters.** White space is put in before its
first character or, at a cut, before its last one. -/
theorem exists_pads (hcut : CutsTags cut) {es : List Edit} {t : Trail} {first last : Char}
    {mid : Text} (hsource : source es = first :: (mid ++ [last])) (hsound : AllSound cut t es)
    (hfirst : isBlank first = false ∧ first ≠ '>' ∧ first ≠ '\x7d') (hmid : mid.all isQuiet = true)
    (hlast : isBlank last = false ∧ last ≠ '<' ∧ last ≠ '\x7b') :
    ∃ pad pad', es = keep pad first :: copy mid ++ [keep pad' last] ∧ pad'.Blank ∧
      Sound cut t (keep pad first) ∧
      (pad' ≠ [] → cut (t.source ++ first :: (mid ++ [last]))) := by
  obtain ⟨e, es', rfl, he, hes'⟩ := source_eq_cons hsource
  obtain ⟨es₁, es₂, rfl, hes₁, hes₂⟩ := source_eq_append hes'
  obtain ⟨e', es₃, rfl, he', hes₃⟩ := source_eq_cons hes₂
  obtain rfl : es₃ = [] := List.map_eq_nil_iff.mp hes₃
  obtain ⟨hhead, hrest⟩ := hsound
  obtain ⟨hmiddle, hend, -⟩ := allSound_append.mp hrest
  obtain ⟨pad, rfl⟩ := eq_keep hhead he hfirst.1
  obtain ⟨pad', rfl⟩ := eq_keep hend he' hlast.1
  have hcopy : es₁ = copy mid :=
    eq_copy_of_quiet hcut hes₁ hmid hmiddle (p := first) List.getLast?_concat hfirst
  refine ⟨pad, pad', by rw [hcopy, List.cons_append], hend.1, hhead, fun hpad' => ?_⟩
  have hsrc : ((t.after (keep pad first)).run es₁).source = t.source ++ first :: mid := by
    rw [Trail.source_run, hes₁]
    simp [Trail.after]
  -- no white space is put in behind the character before the last one, except at a cut
  obtain ⟨u, p, hu, hquiet⟩ := exists_concat_of_quiet hfirst hmid
  have hp : ((t.after (keep pad first)).run es₁).source.getLast? = some p := by
    rw [hsrc, hu, ← List.append_assoc, List.getLast?_concat]
  have hmade := cut_of_pad hend hp hquiet hlast.2 hpad'
  rwa [hsrc, List.append_assoc, List.cons_append] at hmade

/-- The last edit is told by the edits. -/
theorem pad_eq_of_concat {es es' : List Edit} {pad pad' : Text} {c c' : Char}
    (h : es ++ [keep pad c] = es' ++ [keep pad' c']) : pad = pad' := by
  have hedit := List.singleton_inj.mp (List.append_inj' h rfl).2
  exact (keep.inj hedit).1

/-- White space is put in before the last character of a source text. -/
def PadsAt (es : List Edit) (s : Text) : Prop :=
  ∃ es₁ pad c es₂, es = es₁ ++ keep pad c :: es₂ ∧ pad ≠ [] ∧ source es₁ ++ [c] = s

end Edit

namespace Sentinel

/-- A sentinel without white space is a word of quiet characters, but for the
first and the last one. -/
theorem exists_shape {k : Codec} (hk : k.Branded) {a : Sentinel} (ha : a ≠ markupStart)
    (gap : Text) :
    ∃ first mid last, a.text k gap = first :: (mid ++ [last]) ∧ mid.all isQuiet = true ∧
      (isBlank first = false ∧ first ≠ '>' ∧ first ≠ '\x7d' ∧ first ≠ '=') ∧
      (isBlank last = false ∧ last ≠ '<' ∧ last ≠ '\x7b' ∧ last ≠ '=') := by
  have hnonce := k.all_isQuiet_nonce
  -- a quote begins with the nonce, the others have a mark before it
  obtain ⟨rest, hp⟩ := hk.nonce_eq
  have hrest : rest.all isQuiet = true := by
    rw [hp, List.all_cons, Bool.and_eq_true] at hnonce
    exact hnonce.2
  -- what stands around the nonce is quiet too
  have hmarked : ∀ front back : Text, front.all isQuiet = true → back.all isQuiet = true →
      (front ++ k.nonce ++ back).all isQuiet = true := by
    intro front back hfront hback
    rw [List.all_append, List.all_append, hfront, hnonce, hback]
    rfl
  rw [text_eq]
  cases a with
  | markupStart => exact absurd rfl ha
  | doubleQuote =>
    refine ⟨'p', rest ++ "%quote#".toList, '1', ?_, ?_, by decide, by decide⟩
    · simp [lead, trail, isQuote, label, hp]
    · rw [List.all_append, hrest]
      decide
  | singleQuote =>
    refine ⟨'p', rest ++ "%quote~".toList, '2', ?_, ?_, by decide, by decide⟩
    · simp [lead, trail, isQuote, label, hp]
    · rw [List.all_append, hrest]
      decide
  | markupTerminator =>
    refine ⟨'-', "%".toList ++ k.nonce ++ "-comment-end#-".toList, '>', ?_,
      hmarked _ _ (by decide) (by decide), by decide, by decide⟩
    simp [lead, trail, isQuote, label]
  | codeTerminator =>
    refine ⟨'*', "%".toList ++ k.nonce ++ "-comment-end#".toList, '/', ?_,
      hmarked _ _ (by decide) (by decide), by decide, by decide⟩
    simp [lead, trail, isQuote, label]
  | endTagOpen =>
    refine ⟨'<', "%".toList ++ k.nonce ++ "-end-tag#".toList, '/', ?_,
      hmarked _ _ (by decide) (by decide), by decide, by decide⟩
    simp [lead, trail, isQuote, label]
  | codeStart =>
    refine ⟨'/', "*%".toList ++ k.nonce ++ "-comment-start".toList, '#', ?_,
      hmarked _ _ (by decide) (by decide), by decide, by decide⟩
    simp [lead, trail, isQuote, label]
  | markupEnd =>
    refine ⟨'%', [] ++ k.nonce ++ "-comment-end#--".toList, '>', ?_,
      hmarked _ _ (by decide) (by decide), by decide, by decide⟩
    simp [lead, trail, isQuote, label]
  | codeEnd =>
    refine ⟨'%', [] ++ k.nonce ++ "-comment-end#*".toList, '/', ?_,
      hmarked _ _ (by decide) (by decide), by decide, by decide⟩
    simp [lead, trail, isQuote, label]

/-- The start of a comment in markup ends with the mark. -/
theorem getLast?_markupStart (k : Codec) (gap : Text) :
    (markupStart.text k gap).getLast? = some '#' := by
  have htext : markupStart.text k gap =
      (['<', '!', '-', '-'] ++ gap ++ '%' :: k.nonce ++ "-comment-start".toList) ++ ['#'] := by
    simp [text, Codec.startMark]
  rw [htext, List.getLast?_concat]

/-- Only the start of a comment in markup shows its gap. -/
theorem text_congr (k : Codec) {a : Sentinel} (ha : a ≠ markupStart) (gap gap' : Text) :
    a.text k gap = a.text k gap' := by
  cases a with
  | markupStart => exact absurd rfl ha
  | _ => rfl

/-- A sentinel that ends in a slash or a bracket can be torn before it. -/
theorem exists_stump {k : Codec} {a : Sentinel} {gap front : Text} {last : Char}
    (htext : a.text k gap = front ++ [last]) (hlast : last = '/' ∨ last = '>') :
    ∃ lead, ∃ stem ∈ Symbol.stumps, front = lead ++ '%' :: k.nonce ++ '-' :: stem ∧
      ∀ c ∈ lead, isFragment c = false := by
  -- the sentinel, cut before its last character
  have hcut : ∀ (lead stem : Text) (c : Char),
      a.text k gap = lead ++ '%' :: k.nonce ++ '-' :: stem ++ [c] →
      front = lead ++ '%' :: k.nonce ++ '-' :: stem := by
    intro lead stem c h
    exact (List.append_inj' (htext.symm.trans h) rfl).1
  -- a sentinel that ends otherwise is none of those asked for
  have hother : ∀ (t : Text) (c : Char), a.text k gap = t ++ [c] → c ≠ '/' → c ≠ '>' → False := by
    intro t c h hslash hgt
    obtain rfl : last = c := List.singleton_inj.mp (List.append_inj' (htext.symm.trans h) rfl).2
    rcases hlast with rfl | rfl
    · exact hslash rfl
    · exact hgt rfl
  rw [text_eq] at hcut hother
  cases a with
  | markupTerminator =>
    exact ⟨['-'], "comment-end#-".toList, by decide,
      hcut _ _ '>' (by simp [Sentinel.lead, trail, isQuote, label]),
      List.forall_mem_singleton.mpr rfl⟩
  | codeTerminator =>
    exact ⟨['*'], "comment-end#".toList, by decide,
      hcut _ _ '/' (by simp [Sentinel.lead, trail, isQuote, label]),
      List.forall_mem_singleton.mpr rfl⟩
  | endTagOpen =>
    exact ⟨['<'], "end-tag#".toList, by decide,
      hcut _ _ '/' (by simp [Sentinel.lead, trail, isQuote, label]),
      List.forall_mem_singleton.mpr rfl⟩
  | markupEnd =>
    exact ⟨[], "comment-end#--".toList, by decide,
      hcut _ _ '>' (by simp [Sentinel.lead, trail, isQuote, label]), List.forall_mem_nil _⟩
  | codeEnd =>
    exact ⟨[], "comment-end#*".toList, by decide,
      hcut _ _ '/' (by simp [Sentinel.lead, trail, isQuote, label]), List.forall_mem_nil _⟩
  | doubleQuote =>
    exact (hother (k.nonce ++ "%quote#".toList) '1'
      (by simp [Sentinel.lead, trail, isQuote, label]) (by decide) (by decide)).elim
  | singleQuote =>
    exact (hother (k.nonce ++ "%quote~".toList) '2'
      (by simp [Sentinel.lead, trail, isQuote, label]) (by decide) (by decide)).elim
  | markupStart =>
    exact (hother (Sentinel.lead k gap markupStart ++ '%' :: k.nonce ++ "-comment-start".toList) '#'
      (by simp [trail, isQuote, label]) (by decide) (by decide)).elim
  | codeStart =>
    exact (hother ("/*%".toList ++ k.nonce ++ "-comment-start".toList) '#'
      (by simp [Sentinel.lead, trail, isQuote, label]) (by decide) (by decide)).elim

end Sentinel

/-! ## Symbols spelt anew -/

namespace Symbol

variable {k : Codec} {cut : Text → Prop} {t : Trail}

/-- The edits of some symbols spell other symbols, whose sense echoes theirs. -/
structure Respells (k : Codec) (t : Trail) (es : List Edit) (syms syms' : List Symbol) : Prop where
  printed : Edit.printed es = flat k syms'
  valid : ∀ σ ∈ syms', σ.Valid
  tracks : ∀ {s s'}, Tracks t s s' →
    Tracks (t.run es) (s ++ syms.flatMap sense) (s' ++ syms'.flatMap sense)

namespace Respells

theorem nil (k : Codec) (t : Trail) : Respells k t [] [] [] where
  printed := rfl
  valid σ hσ := nomatch hσ
  tracks h := by simpa using h

/-- Symbols are spelt one after the other. -/
theorem append {es es₂ : List Edit} {syms syms' syms₂ syms₂' : List Symbol}
    (h : Respells k t es syms syms') (h₂ : Respells k (t.run es) es₂ syms₂ syms₂') :
    Respells k t (es ++ es₂) (syms ++ syms₂) (syms' ++ syms₂') where
  printed := by rw [Edit.printed_append, h.printed, h₂.printed, flat_append]
  valid := List.forall_mem_append.mpr ⟨h.valid, h₂.valid⟩
  tracks hst := by
    rw [Trail.run_append, List.flatMap_append, List.flatMap_append, ← List.append_assoc,
      ← List.append_assoc]
    exact h₂.tracks (h.tracks hst)

/-- **No fragment comes in.** -/
theorem collides {es : List Edit} {syms syms' : List Symbol}
    (h : Respells k (Trail.atEnd []) es syms syms')
    (hclean : k.collides (syms.flatMap sense) = false) :
    k.collides (syms'.flatMap sense) = false := by
  have htracks := h.tracks Tracks.nil
  exact htracks.collides hclean

end Respells

/-- Plain characters are valid. -/
theorem valid_map_plain (s : Text) : ∀ σ ∈ s.map plain, σ.Valid := by
  intro σ hσ
  obtain ⟨c, -, rfl⟩ := List.mem_map.mp hσ
  trivial

/-- A character that is dropped leaves no symbol. -/
theorem respells_drop (k : Codec) (t : Trail) (c : Char) : Respells k t [.drop c] [plain c] [] where
  printed := rfl
  valid σ hσ := nomatch hσ
  tracks h := by simpa [sense] using h.drop c

/-- A character that is kept is spelt as it is, behind the white space put in. -/
theorem respells_keep {pad : Text} {c : Char} (h : Edit.Sound cut t (.keep pad c)) :
    Respells k t [.keep pad c] [plain c] (pad.map plain ++ [plain c]) where
  printed := by simp [text]
  valid := List.forall_mem_append.mpr ⟨valid_map_plain pad, by simp [Valid]⟩
  tracks hst := by simpa [sense] using hst.keep h

/-- A whole sentinel, with white space before it and maybe other white space in
it. -/
theorem respells_whole {es : List Edit} {a : Sentinel} {gap gap' pad : Text} {first last : Char}
    (hprinted : Edit.printed es = pad ++ a.text k gap') (hgap' : gap'.all isBlank = true)
    (hrun : t.run es = ⟨t.source ++ a.text k gap, some last, false⟩)
    (hfirst : Edit.Sound cut t (.keep pad first)) (hne : first ≠ '=' ∧ first ≠ '>')
    (hlast : last ≠ '=') :
    Respells k t es [whole a gap] (pad.map plain ++ [whole a gap']) where
  printed := by simp [hprinted, text]
  valid := List.forall_mem_append.mpr ⟨valid_map_plain pad, by simpa [Valid] using hgap'⟩
  tracks hst := by
    have hecho := (hst.echo_pad hfirst hne).append a.sense
    rw [hrun]
    simpa [sense] using Tracks.of_echo hlast hecho

/-- A sentinel with white space before its last character. -/
theorem respells_torn {es : List Edit} {a : Sentinel} {gap pad lead stem pad' : Text} {b : Char}
    {first last : Char}
    (hprinted : Edit.printed es =
      pad ++ (lead ++ '%' :: k.nonce ++ '-' :: stem) ++ b :: pad' ++ [last])
    (hblank : Text.Blank (b :: pad')) (hstem : stem ∈ stumps)
    (hlead : ∀ c ∈ lead, isFragment c = false)
    (hrun : t.run es = ⟨t.source ++ a.text k gap, some last, false⟩)
    (hfirst : Edit.Sound cut t (.keep pad first)) (hne : first ≠ '=' ∧ first ≠ '>')
    (hlast : last = '/' ∨ last = '>') :
    Respells k t es [whole a gap]
      ((pad ++ lead).map plain ++ torn stem b :: (pad' ++ [last]).map plain) where
  printed := by simp [hprinted, text]
  valid := by
    rw [Text.blank_cons] at hblank
    refine List.forall_mem_append.mpr
      ⟨valid_map_plain _, List.forall_mem_cons.mpr ⟨?_, valid_map_plain _⟩⟩
    exact ⟨hstem, hblank.1⟩
  tracks hst := by
    -- all that is left of the sentinel is separators
    have hsep : isFragment last = false ∧ last ≠ '=' := by
      rcases hlast with rfl | rfl <;> decide
    have hecho := ((hst.echo_pad hfirst hne).separators hlead).separators (x := b :: pad')
      fun c hc => isFragment_of_isBlank (hblank.of_mem hc)
    have hend := hecho.separate hsep.1 a.sense
    rw [hrun]
    simpa [sense] using Tracks.of_echo hsep.2 hend

/-- There is a torn sentinel among the symbols. -/
def HasTorn (syms : List Symbol) : Prop :=
  ∃ stem b, torn stem b ∈ syms

/-- White space and a symbol that is not torn hold nothing torn. -/
theorem not_hasTorn_of_plain {pad : Text} {σ : Symbol} (hσ : ∀ stem b, σ ≠ torn stem b) :
    ¬ HasTorn (pad.map plain ++ [σ]) := by
  rintro ⟨stem, b, hmem⟩
  rcases List.mem_append.mp hmem with hmem | hmem
  · obtain ⟨c, -, hc⟩ := List.mem_map.mp hmem
    cases hc
  · exact hσ stem b (List.mem_singleton.mp hmem).symm

/-- What becomes of one symbol: it is torn exactly if white space is put in before
its last character, and that happens at a cut. -/
structure Outcome (k : Codec) (cut : Text → Prop) (t : Trail) (es : List Edit) (σ : Symbol)
    (out : List Symbol) : Prop where
  respells : Respells k t es [σ] out
  cut_of_torn : HasTorn out → σ.isPlain = false ∧ cut (t.source ++ σ.text k)
  torn_of_pad : σ.isPlain = false → ∀ es' pad c, es = es' ++ [.keep pad c] → pad ≠ [] → HasTorn out

/-- **What becomes of a plain character**: it is kept or dropped. -/
theorem outcome_plain {es : List Edit} {c : Char} (hsource : Edit.source es = [c])
    (hsound : Edit.AllSound cut t es) : ∃ out, Outcome k cut t es (plain c) out := by
  obtain ⟨e, es', rfl, he, hes'⟩ := Edit.source_eq_cons hsource
  obtain rfl : es' = [] := List.map_eq_nil_iff.mp hes'
  cases e with
  | drop d =>
    obtain ⟨rfl, -⟩ := List.cons.inj he
    refine ⟨[], respells_drop k t d, ?_, fun h => nomatch h⟩
    rintro ⟨stem, b, hmem⟩
    cases hmem
  | keep pad d =>
    obtain ⟨rfl, -⟩ := List.cons.inj he
    refine ⟨_, respells_keep hsound.1, fun h => ?_, fun h => nomatch h⟩
    exact absurd h (not_hasTorn_of_plain fun stem b => Symbol.noConfusion)

/-- **What becomes of a sentinel** that holds no white space: it is copied, or torn before its last
character. -/
theorem outcome_word (hk : k.Branded) (hcut : CutsTags cut) {es : List Edit} {a : Sentinel}
    {gap : Text} (ha : a ≠ .markupStart) (hgap : gap.all isBlank = true)
    (hsource : Edit.source es = a.text k gap) (hsound : Edit.AllSound cut t es) :
    ∃ out, Outcome k cut t es (whole a gap) out := by
  obtain ⟨first, mid, last, htext, hmid, hfirst, hlast⟩ := Sentinel.exists_shape hk ha gap
  obtain ⟨pad, pad', rfl, hblank, hhead, hmade⟩ := Edit.exists_pads hcut (hsource.trans htext)
    hsound ⟨hfirst.1, hfirst.2.1, hfirst.2.2.1⟩ hmid ⟨hlast.1, hlast.2.1, hlast.2.2.1⟩
  have hne : first ≠ '=' ∧ first ≠ '>' := ⟨hfirst.2.2.2, hfirst.2.1⟩
  have hrun : t.run (.keep pad first :: Edit.copy mid ++ [.keep pad' last]) =
      ⟨t.source ++ a.text k gap, some last, false⟩ := by
    rw [Trail.run_append, Trail.run_cons, Trail.run_nil, Trail.after, Trail.source_run]
    simp [htext]
  have hprinted : Edit.printed (.keep pad first :: Edit.copy mid ++ [.keep pad' last]) =
      pad ++ (first :: mid) ++ pad' ++ [last] := by
    simp
  cases pad' with
  -- no white space: the sentinel is whole
  | nil =>
    have hwhole : Edit.printed (.keep pad first :: Edit.copy mid ++ [.keep [] last]) =
        pad ++ a.text k gap := by
      rw [hprinted, htext]
      simp
    refine ⟨_, respells_whole hwhole hgap hrun hhead hne hlast.2.2.2, fun h => ?_, ?_⟩
    · exact absurd h (not_hasTorn_of_plain fun stem b => Symbol.noConfusion)
    · intro _ es' pad'' c heq hpad''
      exact absurd (Edit.pad_eq_of_concat heq).symm hpad''
  | cons b pad' =>
    -- white space before the last character: a cut
    have hmade' := hmade (List.cons_ne_nil b pad')
    have htip : last = '/' ∨ last = '>' := by
      refine hcut.last_eq (s := t.source ++ first :: mid) ?_
      rwa [List.append_assoc, List.cons_append]
    have hsplit : a.text k gap = (first :: mid) ++ [last] := by
      rw [htext, List.cons_append]
    obtain ⟨lead, stem, hstem, hfront, hlead⟩ := Sentinel.exists_stump hsplit htip
    refine ⟨_,
      respells_torn (hprinted.trans (by rw [hfront])) hblank hstem hlead hrun hhead hne htip,
      fun _ => ⟨rfl, ?_⟩, fun _ es' pad'' c _ _ => ⟨stem, b, ?_⟩⟩
    · rwa [text, htext]
    · exact List.mem_append_right _ (List.mem_cons_self ..)

/-- Sound edits print white space for white space. -/
theorem blank_printed {es : List Edit} (hsource : (Edit.source es).Blank)
    (hsound : Edit.AllSound cut t es) : (Edit.printed es).Blank := by
  induction es generalizing t with
  | nil => exact Text.blank_nil
  | cons e es ih =>
    cases e with
    | drop c => exact ih (Text.blank_cons.mp hsource).2 hsound.2
    | keep pad c =>
      obtain ⟨hc, hrest⟩ := Text.blank_cons.mp hsource
      rw [Edit.printed_keep, Text.blank_append, Text.blank_cons]
      exact ⟨hsound.1.1, hc, ih hrest hsound.2⟩

/-- **What becomes of the start of a comment in markup**: its gap may become another one. -/
theorem outcome_markupStart (hcut : CutsTags cut) {es : List Edit} {gap : Text}
    (hgap : gap.all isBlank = true)
    (hsource : Edit.source es = Sentinel.text k gap .markupStart)
    (hsound : Edit.AllSound cut t es) : ∃ out, Outcome k cut t es (whole .markupStart gap) out := by
  have hnonce := k.all_isQuiet_nonce
  have hmark : k.startMark = '%' :: (k.nonce ++ "-comment-start".toList ++ ['#']) := by
    simp [Codec.startMark]
  -- neither part is cut before its last character
  have hnocut : ∀ (s : Text) (c : Char), c ≠ '/' → c ≠ '>' → ¬ cut (s ++ [c]) := by
    intro s c hslash hgt hmade
    rcases hcut.last_eq hmade with h | h
    · exact hslash h
    · exact hgt h
  -- the opener, the white space behind it, and the mark
  rw [Sentinel.text, List.append_assoc] at hsource
  obtain ⟨es₁, es₂, rfl, hes₁, hes₂⟩ := Edit.source_eq_append hsource
  obtain ⟨es₃, es₄, rfl, hes₃, hes₄⟩ := Edit.source_eq_append hes₂
  obtain ⟨hsound₁, hsound₂⟩ := Edit.allSound_append.mp hsound
  obtain ⟨hsound₃, hsound₄⟩ := Edit.allSound_append.mp hsound₂
  have hopen : Edit.source es₁ = '<' :: (['!', '-'] ++ ['-']) := hes₁
  obtain ⟨pad, pad₁, rfl, -, hhead, hmade₁⟩ := Edit.exists_pads hcut hopen hsound₁ (by decide)
    (by decide) (by decide)
  obtain rfl : pad₁ = [] := by
    by_contra hpad₁
    have hmade := hmade₁ hpad₁
    rw [show t.source ++ '<' :: (['!', '-'] ++ ['-']) = t.source ++ ['<', '!', '-'] ++ ['-'] by
      simp] at hmade
    exact hnocut _ '-' (by decide) (by decide) hmade
  obtain ⟨pad₂, pad₃, rfl, hblank₃, hmid, hmade₃⟩ := Edit.exists_pads hcut (hes₄.trans hmark)
    hsound₄ (by decide) (by rw [List.all_append, hnonce]; decide) (by decide)
  obtain rfl : pad₃ = [] := by
    by_contra hpad₃
    have hmade := hmade₃ hpad₃
    rw [← List.cons_append, ← List.append_assoc] at hmade
    exact hnocut _ '#' (by decide) (by decide) hmade
  -- what is put in before the mark is more white space behind the opener
  have hgap' : (Edit.printed es₃ ++ pad₂).Blank :=
    Text.blank_append.mpr ⟨blank_printed (hes₃.symm ▸ hgap) hsound₃, hmid.1⟩
  refine ⟨_, respells_whole ?_ hgap' ?_ hhead (by decide) (show '#' ≠ '=' by decide),
    fun h => ?_, ?_⟩
  · simp [Sentinel.text, hmark]
  · rw [Trail.run_append, Trail.run_append, Trail.run_append, Trail.run_cons, Trail.run_nil,
      Trail.after, Trail.source_run, Trail.source_run, Trail.source_run, hes₃]
    simp [Sentinel.text, hmark]
  · exact absurd h (not_hasTorn_of_plain fun stem b => Symbol.noConfusion)
  · intro _ es' pad' c heq hpad'
    rw [← List.append_assoc, ← List.append_assoc] at heq
    exact absurd (Edit.pad_eq_of_concat heq).symm hpad'

/-- **What becomes of any symbol**, as the kinds have it. -/
theorem exists_outcome (hk : k.Branded) (hcut : CutsTags cut) {es : List Edit} {σ : Symbol}
    (hσ : σ.Fresh) (hsource : Edit.source es = σ.text k) (hsound : Edit.AllSound cut t es) :
    ∃ out, Outcome k cut t es σ out := by
  cases σ with
  | plain c => exact outcome_plain hsource hsound
  | torn stem b => exact hσ.elim
  | whole a gap =>
    by_cases ha : a = .markupStart
    · subst ha
      exact outcome_markupStart hcut hσ hsource hsound
    · exact outcome_word hk hcut ha hσ hsource hsound

/-- The text up to the end of one of the symbols. -/
def EndsAt (k : Codec) (syms : List Symbol) (s : Text) : Prop :=
  ∃ front σ back, syms = front ++ σ :: back ∧ σ.isPlain = false ∧ s = flat k (front ++ [σ])

/-- **Changes of white space make symbols of symbols.** They tear one exactly if they
put white space before the last character of one, and they do that at a cut. -/
theorem exists_respells (hk : k.Branded) (hcut : CutsTags cut) {es : List Edit}
    {syms : List Symbol} (hfresh : ∀ σ ∈ syms, σ.Fresh) (hsource : Edit.source es = flat k syms)
    (hsound : Edit.AllSound cut t es) :
    ∃ syms', Respells k t es syms syms' ∧
      (HasTorn syms' → ∃ s, EndsAt k syms s ∧ cut (t.source ++ s)) ∧
      ∀ s, EndsAt k syms s → Edit.PadsAt es s → HasTorn syms' := by
  induction syms generalizing t es with
  | nil =>
    obtain rfl : es = [] := List.map_eq_nil_iff.mp hsource
    refine ⟨[], Respells.nil k t, ?_, ?_⟩
    · rintro ⟨stem, b, hmem⟩
      cases hmem
    · rintro s ⟨front, σ, back, hsyms, -⟩
      simp at hsyms
  | cons σ syms ih =>
    rw [flat_cons] at hsource
    obtain ⟨es₁, es₂, rfl, hes₁, hes₂⟩ := Edit.source_eq_append hsource
    obtain ⟨hsound₁, hsound₂⟩ := Edit.allSound_append.mp hsound
    obtain ⟨out, hout⟩ := exists_outcome hk hcut (hfresh σ (List.mem_cons_self ..)) hes₁ hsound₁
    obtain ⟨syms', hrest, htorn, hpads⟩ := ih (fun τ hτ => hfresh τ (List.mem_cons_of_mem _ hτ))
      hes₂ hsound₂
    refine ⟨out ++ syms', hout.respells.append hrest, ?_, ?_⟩
    · rintro ⟨stem, b, hmem⟩
      rcases List.mem_append.mp hmem with hmem | hmem
      · obtain ⟨hσ, hmade⟩ := hout.cut_of_torn ⟨stem, b, hmem⟩
        exact ⟨σ.text k, ⟨[], σ, syms, rfl, hσ, by simp⟩, hmade⟩
      · obtain ⟨s, ⟨front, τ, back, rfl, hτ, rfl⟩, hmade⟩ := htorn ⟨stem, b, hmem⟩
        refine ⟨_, ⟨σ :: front, τ, back, rfl, hτ, rfl⟩, ?_⟩
        rwa [Trail.source_run, hes₁, List.append_assoc] at hmade
    · -- whose edits does the white space belong to?
      rintro s ⟨front, τ, back, hsyms, hτ, rfl⟩ ⟨es₃, pad, c, es₄, hes, hpad, hend⟩
      cases front with
      | nil =>
        -- to the first symbol: its edits end there
        obtain ⟨rfl, rfl⟩ := List.cons.inj hsyms
        have hlength : es₁.length = (es₃ ++ [Edit.keep pad c]).length := by
          have hsame := congrArg List.length (hes₁.trans (hend.trans (by simp)).symm)
          simpa [Edit.source] using hsame
        have hes' : es₁ ++ es₂ = (es₃ ++ [Edit.keep pad c]) ++ es₄ := by
          rw [hes, List.append_assoc, List.singleton_append]
        obtain ⟨stem, b, hmem⟩ :=
          hout.torn_of_pad hτ es₃ pad c (List.append_inj hes' hlength).1 hpad
        exact ⟨stem, b, List.mem_append_left _ hmem⟩
      | cons σ' front =>
        -- to a later one: the edits of the first come before it
        obtain ⟨rfl, rfl⟩ := List.cons.inj hsyms
        rw [List.cons_append, flat_cons] at hend
        have hlength : es₁.length ≤ es₃.length := by
          have hsame := congrArg List.length hend
          have hfirst := congrArg List.length hes₁
          have hpos := List.length_pos_of_ne_nil (text_ne_nil k τ)
          simp only [Edit.source, List.length_append, List.length_map, List.length_cons,
            List.length_nil, flat_append, flat_cons] at hsame hfirst
          omega
        obtain ⟨es₅, rfl⟩ := List.prefix_of_prefix_length_le ⟨es₂, hes⟩ ⟨_, rfl⟩ hlength
        rw [List.append_assoc] at hes
        rw [Edit.source_append, hes₁, List.append_assoc] at hend
        obtain ⟨stem, b, hmem⟩ := hpads _ ⟨front, τ, back, rfl, hτ, rfl⟩
          ⟨es₅, pad, c, es₄, List.append_cancel_left hes, hpad, List.append_cancel_left hend⟩
        exact ⟨stem, b, List.mem_append_right _ hmem⟩

/-- Symbols that are copied spell themselves. -/
theorem respells_copy {syms : List Symbol} (hfresh : ∀ σ ∈ syms, σ.Fresh) {pad : Text}
    {first : Char} {more : Text} (hflat : flat k syms = first :: more)
    (hfirst : Edit.Sound cut t (.keep pad first)) (hne : first ≠ '=' ∧ first ≠ '>')
    (hlast : (first :: more).getLast? ≠ some '=') :
    Respells k t (.keep pad first :: Edit.copy more) syms (pad.map plain ++ syms) where
  printed := by simp [hflat]
  valid := List.forall_mem_append.mpr ⟨valid_map_plain pad, fun σ hσ => (hfresh σ hσ).valid⟩
  tracks hst := by
    have hecho := (hst.echo_pad hfirst hne).append (syms.flatMap sense)
    obtain ⟨last, hlast'⟩ : ∃ last, (first :: more).getLast? = some last :=
      ⟨_, List.getLast?_eq_some_getLast (List.cons_ne_nil first more)⟩
    -- behind a copy the trail has its last character, which is not an equals sign
    have hrun : t.run (.keep pad first :: Edit.copy more) =
        ⟨t.source ++ (first :: more), some last, false⟩ := by
      rw [← hlast', Trail.run_cons]
      cases more with
      | nil => rfl
      | cons d more =>
        rw [Edit.run_copy _ (List.cons_ne_nil d more)]
        simp [Trail.after]
    have hother : last ≠ '=' := by
      rintro rfl
      exact hlast hlast'
    rw [hrun, List.flatMap_append, sense_map_plain]
    rw [List.append_assoc] at hecho
    exact Tracks.of_echo hother hecho

end Symbol

end TemplateTidy
