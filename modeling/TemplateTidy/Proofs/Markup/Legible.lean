import TemplateTidy.Proofs.Markup.Closing
import TemplateTidy.Proofs.Markup.Rendering

/-!
# Reading start tags back

A start tag is printed with other white space around its attributes. It is read back
as the same tag if each of its attributes *stands alone*: both readers of tags pass over
it and stand outside of quotes and atoms again. The white space between attributes then
means nothing to the one reader and divides the words of the other.

What follows an attribute in print is white space or the bracket of the tag. Neither
changes where a reader stands behind it, since the end of an atom that it would
complete lies outside of the attribute.

Main results: `StartTag.Parts.Readable.parts_print`, `StartTag.reads_render`.
-/

namespace TemplateTidy

/-! ## Passing over a text -/

namespace Tag

/-- A reader that stands at a spot passes over a text and stands outside of quotes and
atoms again. No character that it meets outside of them stops it. -/
def passes (templates : Bool) (lead : Nat) (stop : Char → Bool) : Spot → Text → Bool
  | spot, [] => decide (spot = .plain)
  | spot, c :: cs =>
    !(decide (spot = .plain) && stop c) &&
      passes templates lead stop (spot.next templates lead c cs) cs

section

variable {templates : Bool} {lead : Nat} {stop : Char → Bool} {spot : Spot} {c : Char} {s : Text}

/-- At the end of a text the reader has to stand outside of quotes and atoms. -/
theorem passes_nil : passes templates lead stop spot [] = true ↔ spot = .plain := by
  rw [passes, decide_eq_true_eq]

/-- Passing over a text is passing over its first character and then over the rest. -/
theorem passes_cons : passes templates lead stop spot (c :: s) = true ↔
    (spot = .plain → stop c = false) ∧
      passes templates lead stop (spot.next templates lead c s) s = true := by
  rw [passes, Bool.and_eq_true]
  refine and_congr_left fun _ => ?_
  cases stop c <;> simp

/-- To pass over the end of an atom, a reader needs room for it. -/
theorem length_le_of_passes {closer : Text}
    (h : passes templates lead stop (.atom 0 closer) s = true) : closer.length ≤ s.length := by
  induction s with
  | nil => cases passes_nil.mp h
  | cons c s ih =>
    have hnext := (passes_cons.mp h).2
    rw [Spot.next] at hnext
    split at hnext
    · rename_i hcloser
      exact (List.isPrefixOf_iff_prefix.mp hcloser).length_le
    · exact Nat.le_succ_of_le (ih hnext)

end

/-- White space or a bracket follows, or nothing. -/
def Parted (follow : Text) : Prop :=
  ∀ c, follow.head? = some c → isBlank c = true ∨ c = '>'

/-- A bracket parts a text from what follows. -/
theorem parted_bracket (s : Text) : Parted ('>' :: s) :=
  fun _ hc => .inr (Option.some.inj hc).symm

/-- White space in between leaves the texts parted. -/
theorem Parted.of_blank {pad : Text} (hpad : pad.Blank) {s : Text} (hs : Parted s) :
    Parted (pad ++ s) := by
  cases pad with
  | nil => exact hs
  | cons d pad =>
    intro c hc
    obtain rfl : d = c := Option.some.inj hc
    exact .inl (Text.blank_cons.mp hpad).1

/-- The character may stand in the opener of an atom. -/
def inOpener (c : Char) : Bool :=
  "<!-?".toList.contains c

/-- No opener of an atom lies across the seam of two texts. -/
def Apart (s follow : Text) : Prop :=
  (∀ c, follow.head? = some c → inOpener c = false) ∨
    ∃ c, s.getLast? = some c ∧ inOpener c = false

/-- No opener lies across the seam to something parted. -/
theorem Parted.apart {follow : Text} (h : Parted follow) (s : Text) : Apart s follow := by
  refine .inl fun c hc => ?_
  by_contra hopener
  rw [Bool.not_eq_false, inOpener, List.contains_iff_mem] at hopener
  have hall : ∀ d ∈ "<!-?".toList, ¬ (isBlank d = true ∨ d = '>') := by decide
  exact hall c hopener (h c hc)

/-- What a text begins with shows in as many characters. -/
theorem isPrefixOf_append_of_length_le {pat s : Text} (h : pat.length ≤ s.length) (t : Text) :
    pat.isPrefixOf (s ++ t) = pat.isPrefixOf s := by
  rw [Bool.eq_iff_iff, List.isPrefixOf_iff_prefix, List.isPrefixOf_iff_prefix]
  constructor
  · intro hpre
    exact List.prefix_of_prefix_length_le hpre (List.prefix_append s t) h
  · intro hpre
    exact hpre.trans (List.prefix_append s t)

/-- An opener is not completed by what follows. -/
theorem isPrefixOf_apart {pat : Text} (hpat : ∀ c ∈ pat, inOpener c = true) {s follow : Text}
    (h : Apart s follow) : pat.isPrefixOf (s ++ follow) = pat.isPrefixOf s := by
  rcases Nat.lt_or_ge s.length pat.length with hlong | hshort
  swap
  · exact isPrefixOf_append_of_length_le hshort follow
  -- an opener that is too long for the one text would contain both sides of the seam
  rw [Bool.eq_iff_iff, List.isPrefixOf_iff_prefix, List.isPrefixOf_iff_prefix]
  refine iff_of_false (fun hpre => ?_) fun hpre => absurd hpre.length_le (Nat.not_le.mpr hlong)
  obtain ⟨t, rfl⟩ : s <+: pat :=
    List.prefix_of_prefix_length_le (List.prefix_append s follow) hpre (Nat.le_of_lt hlong)
  rw [List.prefix_append_right_inj] at hpre
  rcases h with hnext | ⟨c, hlast, hc⟩
  · cases t with
    | nil => simp at hlong
    | cons d t =>
      obtain ⟨more, rfl⟩ := hpre
      have hd := hpat d (by simp)
      rw [hnext d rfl] at hd
      cases hd
  · have hopener := hpat c (List.mem_append_left t (List.mem_of_getLast? hlast))
    rw [hc] at hopener
    cases hopener

section

variable {templates : Bool} {spot : Spot} {s follow : Text}

/-- What follows a text does not change the way of a reader that finds the end of an atom
within the text. -/
theorem next_congr {lead : Nat} {c : Char} (hapart : Apart (c :: s) follow)
    (hcloser : ∀ closer, spot = .atom 0 closer →
      closer.isPrefixOf (c :: (s ++ follow)) = closer.isPrefixOf (c :: s)) :
    spot.next templates lead c (s ++ follow) = spot.next templates lead c s := by
  cases spot with
  | plain =>
    have hopens : ∀ pat : Text, (∀ c ∈ pat, inOpener c = true) →
        pat.isPrefixOf (c :: (s ++ follow)) = pat.isPrefixOf (c :: s) :=
      fun pat hpat => isPrefixOf_apart hpat hapart
    rw [Spot.next, Spot.next, hopens "<!--".toList (by decide), hopens "<?".toList (by decide)]
  | quoted q => rfl
  | atom skip closer =>
    cases skip with
    | zero => rw [Spot.next, Spot.next, hcloser closer rfl]
    | succ skip => rfl
  | leaving n =>
    cases n with
    | zero => rfl
    | succ n => cases n <;> rfl

/-- What follows does not matter to a reader that passes over a text. -/
theorem next_append {lead : Nat} {stop : Char → Bool} {c : Char}
    (h : passes templates lead stop spot (c :: s) = true) (hapart : Apart (c :: s) follow) :
    spot.next templates lead c (s ++ follow) = spot.next templates lead c s := by
  refine next_congr hapart fun closer hspot => ?_
  rw [hspot] at h
  exact isPrefixOf_append_of_length_le (length_le_of_passes h) follow

/-- The reader that looks for the bracket goes on behind a text that it passes over. -/
theorem length_append (h : passes templates 4 (· == '>') spot s = true) (hfollow : Parted follow) :
    length templates spot (s ++ follow) = s.length + length templates .plain follow := by
  induction s generalizing spot with
  | nil =>
    rw [passes_nil.mp h, List.nil_append, List.length_nil, Nat.zero_add]
  | cons c s ih =>
    obtain ⟨hstop, hs⟩ := passes_cons.mp h
    have hopen : ¬ (spot = .plain ∧ c = '>') := by
      rintro ⟨hspot, rfl⟩
      exact absurd (hstop hspot) (by decide)
    rw [List.cons_append, length, if_neg hopen, next_append h (hfollow.apart _), ih hs,
      List.length_cons]
    omega

/-- To the reader of attributes, a text that it passes over belongs to one word. -/
theorem words_append (h : passes templates 2 isBlank spot s = true) (hfollow : Parted follow) :
    words templates spot (s ++ follow) =
      ⟨s ++ (words templates .plain follow).front, (words templates .plain follow).others⟩ := by
  induction s generalizing spot with
  | nil => rw [passes_nil.mp h, List.nil_append, List.nil_append]
  | cons c s ih =>
    obtain ⟨hstop, hs⟩ := passes_cons.mp h
    have hopen : ¬ (spot = .plain ∧ isBlank c = true) := by
      rintro ⟨hspot, hc⟩
      rw [hstop hspot] at hc
      cases hc
    rw [List.cons_append, words, if_neg hopen, next_append h (hfollow.apart _), ih hs]
    rfl

end

/-! ## Attributes that stand alone -/

/-- A character that is no quote and begins no atom leaves the reader where it is. -/
theorem next_plain {templates : Bool} {lead : Nat} {c : Char} (hquote : c ≠ '"')
    (hapostrophe : c ≠ '\'') (hbracket : c ≠ '<') (s : Text) :
    Spot.next templates lead .plain c s = .plain := by
  have hopens : ∀ pat : Text, List.isPrefixOf ('<' :: pat) (c :: s) = false := by
    intro pat
    have hne : ('<' == c) = false := beq_false_of_ne hbracket.symm
    rw [List.isPrefixOf, hne, Bool.false_and]
  have hcomment : "<!--".toList.isPrefixOf (c :: s) = false := hopens _
  have htemplate : "<?".toList.isPrefixOf (c :: s) = false := hopens _
  have hquotes : (c == '"' || c == '\'') = false := by
    rw [beq_false_of_ne hquote, beq_false_of_ne hapostrophe, Bool.false_or]
  rw [Spot.next, hquotes, hcomment, htemplate, Bool.and_false]
  rfl

/-- White space leaves the reader where it is. -/
theorem next_blank {templates : Bool} {lead : Nat} {c : Char} (hc : isBlank c = true) (s : Text) :
    Spot.next templates lead .plain c s = .plain := by
  have hne : ∀ d : Char, isBlank d = false → c ≠ d := by
    rintro d hd rfl
    rw [hd] at hc
    cases hc
  exact next_plain (hne _ (by decide)) (hne _ (by decide)) (hne _ (by decide)) s

/-- White space in a tag adds its own length. -/
theorem length_blank {templates : Bool} {pad : Text} (hpad : pad.Blank) (s : Text) :
    length templates .plain (pad ++ s) = pad.length + length templates .plain s := by
  induction pad with
  | nil => simp
  | cons c pad ih =>
    obtain ⟨hc, hpad⟩ := Text.blank_cons.mp hpad
    have hbracket : c ≠ '>' := by
      rintro rfl
      exact absurd hc (by decide)
    rw [List.cons_append, length, if_neg (by simp [hbracket]), next_blank hc, ih hpad,
      List.length_cons]
    omega

/-- White space in front adds no words. -/
theorem toList_words_blank {templates : Bool} {pad : Text} (hpad : pad.Blank) (s : Text) :
    (words templates .plain (pad ++ s)).toList = (words templates .plain s).toList := by
  induction pad with
  | nil => rfl
  | cons c pad ih =>
    obtain ⟨hc, hpad⟩ := Text.blank_cons.mp hpad
    rw [List.cons_append, words, if_pos ⟨rfl, hc⟩, ← ih hpad]
    rfl

/-- The text is passed over by both readers of tags. -/
def standsAlone (templates : Bool) (s : Text) : Bool :=
  passes templates 2 isBlank .plain s && passes templates 4 (· == '>') .plain s

/-- White space parts a text from what follows. -/
theorem parted_of_blank {c : Char} (hc : isBlank c = true) (s : Text) : Parted (c :: s) := by
  intro d hd
  obtain rfl : c = d := Option.some.inj hd
  exact .inl hc

/-- Attributes are spread behind white space. -/
theorem Spread.parted {attrs : List Text} {out : Text} (h : Spread attrs out) {rest : Text}
    (hrest : Parted rest) : Parted (out ++ rest) := by
  cases h with
  | nil => exact hrest
  | @cons pad hpad hne a as out h =>
    obtain ⟨c, pad, rfl⟩ := List.exists_cons_of_ne_nil hne
    exact parted_of_blank (Text.blank_cons.mp hpad).1 _

/-- The bracket of a tag is found behind its attributes. -/
theorem Spread.length {templates : Bool} {attrs : List Text} {out : Text} (h : Spread attrs out)
    (hpasses : ∀ a ∈ attrs, passes templates 4 (· == '>') .plain a = true) {rest : Text}
    (hrest : Parted rest) :
    Tag.length templates .plain (out ++ rest) =
      out.length + Tag.length templates .plain rest := by
  induction h with
  | nil => simp
  | @cons pad hpad hne a as out h ih =>
    obtain ⟨ha, has⟩ := List.forall_mem_cons.mp hpasses
    rw [List.append_assoc, List.append_assoc, length_blank hpad,
      length_append ha (h.parted hrest), ih has]
    simp only [List.length_append]
    omega

/-- Attributes that the reader of attributes passes over are the words of the text in which
they are spread. -/
theorem Spread.words {templates : Bool} {attrs : List Text} {out : Text} (h : Spread attrs out)
    (hpasses : ∀ a ∈ attrs, passes templates 2 isBlank .plain a = true)
    (hne : ∀ a ∈ attrs, a ≠ []) {pad : Text} (hpad : pad.Blank) :
    (Tag.words templates .plain (out ++ pad)).toList = attrs ∧
      (Tag.words templates .plain (out ++ pad)).front = [] := by
  -- a text that begins with white space has no word at its front
  have hfront : ∀ {c : Char} {s : Text}, isBlank c = true →
      (Tag.words templates .plain (c :: s)).front = [] := by
    intro c s hc
    rw [Tag.words, if_pos ⟨rfl, hc⟩]
    rfl
  have hend : Parted pad := by
    cases pad with
    | nil => exact fun d hd => absurd hd (Option.not_mem_none d)
    | cons c pad => exact parted_of_blank (Text.blank_cons.mp hpad).1 pad
  induction h with
  | nil =>
    rw [List.nil_append]
    cases pad with
    | nil => exact ⟨rfl, rfl⟩
    | cons c pad =>
      have hblank : (Tag.words templates .plain (c :: pad ++ [])).toList = [] :=
        toList_words_blank hpad []
      rw [List.append_nil] at hblank
      exact ⟨hblank, hfront (Text.blank_cons.mp hpad).1⟩
  | @cons gap hgap hgap' a as out h ih =>
    obtain ⟨ha, has⟩ := List.forall_mem_cons.mp hpasses
    obtain ⟨hletters, hothers⟩ := List.forall_mem_cons.mp hne
    obtain ⟨hwords, hnone⟩ := ih has hothers
    refine ⟨?_, ?_⟩
    · -- the attribute is the first word, and the others are behind it
      rw [List.append_assoc, List.append_assoc, toList_words_blank hgap,
        words_append ha (h.parted hend), hnone, List.append_nil, Words.toList,
        if_neg (by simpa using hletters)]
      congr 1
      rw [← hwords, Words.toList, hnone]
      rfl
    · obtain ⟨c, gap, rfl⟩ := List.exists_cons_of_ne_nil hgap'
      exact hfront (Text.blank_cons.mp hgap).1

/-- Attributes in print end with the last one. -/
theorem Spread.exists_last {attrs : List Text} {out : Text} (h : Spread attrs out) (d : Text) :
    (attrs = [] ∧ out = []) ∨ ∃ s, out = s ++ attrs.getLastD d := by
  induction h generalizing d with
  | nil => exact .inl ⟨rfl, rfl⟩
  | @cons pad hpad hne a as out h ih =>
    right
    rw [List.getLastD_cons]
    rcases ih a with ⟨rfl, rfl⟩ | ⟨s, rfl⟩
    · exact ⟨pad, by simp⟩
    · exact ⟨pad ++ a ++ s, by simp⟩

/-! ## Joined attributes stay joined -/

/-- Neither of two neighbours has its equals sign next to the other. -/
def Unjoined (v w : Text) : Prop :=
  (['='].isPrefixOf w || Text.endsWith ['='] v) = false

/-- Words that have no equals signs at their seams are not joined. -/
theorem rejoinAfter_of_isChain {w : Text} {ws : List Text} (h : List.IsChain Unjoined (w :: ws)) :
    rejoinAfter w ws = w :: ws := by
  induction ws generalizing w with
  | nil => rfl
  | cons v ws ih =>
    obtain ⟨hpair, hrest⟩ := List.isChain_cons_cons.mp h
    rw [rejoinAfter, if_neg (by rw [hpair]; exact Bool.false_ne_true), ih hrest]

/-- **Joined words have no equals signs at their seams.** -/
theorem exists_rejoinAfter {w : Text} (hw : w ≠ []) {ws : List Text} (hws : ∀ v ∈ ws, v ≠ []) :
    ∃ v vs, rejoinAfter w ws = v :: vs ∧ ['='].isPrefixOf v = ['='].isPrefixOf w ∧
      List.IsChain Unjoined (v :: vs) ∧ ∀ u ∈ v :: vs, u ≠ [] := by
  induction ws generalizing w with
  | nil => exact ⟨w, [], rfl, rfl, List.IsChain.singleton w, by simpa using hw⟩
  | cons u ws ih =>
    obtain ⟨hu, hws⟩ := List.forall_mem_cons.mp hws
    rw [rejoinAfter]
    split
    · -- joined: the attribute still begins with the first character of `w`
      obtain ⟨v, vs, heq, hfirst, hchain⟩ := ih (w := w ++ u) (by simp [hw]) hws
      refine ⟨v, vs, heq, ?_, hchain⟩
      obtain ⟨c, w, rfl⟩ := List.exists_cons_of_ne_nil hw
      rw [hfirst]
      rfl
    · rename_i hapart
      obtain ⟨v, vs, heq, hfirst, hchain, hne⟩ := ih hu hws
      refine ⟨w, v :: vs, by rw [heq], rfl, List.isChain_cons_cons.mpr ⟨?_, hchain⟩,
        List.forall_mem_cons.mpr ⟨hw, hne⟩⟩
      rw [Unjoined, hfirst]
      exact eq_false_of_ne_true hapart

/-- The attributes that are read are not joined any further, and none is empty. -/
theorem attributes_spec (templates : Bool) (s : Text) :
    rejoin (attributes templates s) = attributes templates s ∧
      ∀ a ∈ attributes templates s, a ≠ [] := by
  have hwords := Chunk.ne_nil_of_mem_wordsOf (spaced_chunks templates .plain s)
  rw [attributes_eq]
  cases hlist : Chunk.wordsOf (chunks templates .plain s) with
  | nil => exact ⟨rfl, (fun _ h => nomatch h)⟩
  | cons w ws =>
    rw [hlist] at hwords
    obtain ⟨hw, hws⟩ := List.forall_mem_cons.mp hwords
    obtain ⟨v, vs, heq, -, hchain, hne⟩ := exists_rejoinAfter hw hws
    rw [rejoin, heq]
    exact ⟨rejoinAfter_of_isChain hchain, hne⟩

end Tag

/-! ## Tags that are read as themselves -/

namespace StartTag

/-- The tag is read as itself, whatever follows. -/
structure Reads (o : MarkupOptions) (tag : StartTag) : Prop where
  head : ∃ c rest, tag.raw = '<' :: c :: rest ∧ c.isAlpha = true
  length : ∀ t, Item.tagLength o (tag.raw ++ t) = tag.raw.length
  tag : ∀ t, Item.startTagOf o (tag.raw ++ t) tag.raw.length = tag

/-- The tag is read as itself where a space follows. -/
def isClosed (o : MarkupOptions) (tag : StartTag) : Bool :=
  (match tag.raw with
    | '<' :: c :: _ => c.isAlpha
    | _ => false) &&
  decide (Item.tagLength o (tag.raw ++ [' ']) = tag.raw.length ∧
    Item.startTagOf o (tag.raw ++ [' ']) tag.raw.length = tag)

/-- **A tag that is closed before a space is read as itself, whatever follows.** -/
theorem reads_of_isClosed {o : MarkupOptions} {tag : StartTag} (h : tag.isClosed o = true) :
    Reads o tag := by
  rw [isClosed, Bool.and_eq_true, decide_eq_true_eq] at h
  obtain ⟨hopen, hlength, htag⟩ := h
  have hhead : ∃ c rest, tag.raw = '<' :: c :: rest ∧ c.isAlpha = true := by
    split at hopen
    · rename_i c rest hraw
      exact ⟨c, rest, hraw, hopen⟩
    · cases hopen
  -- a tag that ends before the space ends with a bracket
  obtain ⟨u, hraw⟩ : ∃ u, tag.raw = u ++ ['>'] := by
    have hclosed := Item.closedAt_tagLength o (tag.raw ++ [' '])
    rw [hlength] at hclosed
    rcases hclosed with hlast | hend
    · rw [List.take_left] at hlast
      exact List.getLast?_eq_some_iff.mp hlast
    · rw [List.drop_left] at hend
      cases hend
  have hu : u ≠ [] := by
    rintro rfl
    obtain ⟨c, rest, hhead, -⟩ := hhead
    rw [hhead] at hraw
    cases hraw
  have hcut : ∀ t, tag.raw ++ t = u ++ '>' :: t := by
    intro t
    rw [hraw, List.append_assoc]
    rfl
  have hsize : tag.raw.length = u.length + 1 := by
    rw [hraw, List.length_append]
    rfl
  rw [hcut] at hlength htag
  -- up to that bracket the scanner never looks beyond it
  refine ⟨hhead, fun t => ?_, fun t => ?_⟩
  · rw [hcut, Item.tagLength_bracket o hu (by omega) t, hlength]
  · rw [hcut, Item.startTagOf_bracket o hu (by omega) t [' '], htag]

/-- Whatever tag is read behind the bracket is the whole element, or begins it. -/
theorem Reads.markup? {o : MarkupOptions} {tag : StartTag} (h : Reads o tag)
    (hwhole : (tag.verbatim && !tag.void) = false) (t : Text) :
    Item.markup? o (tag.raw ++ t) = some
      (if tag.keepsContent o then
        let content := t.take (Item.bodyLength tag.name t)
        if content.isEmpty then [.startTag tag] else [.startTag tag, .body content tag.name]
      else [.startTag tag]) := by
  obtain ⟨c, rest, hraw, hc⟩ := h.head
  have hmarkup := Item.markup?_element o hc (rest ++ t)
  have hcons : tag.raw ++ t = '<' :: c :: (rest ++ t) := by
    rw [hraw]
    rfl
  rw [← hcons] at hmarkup
  rw [hmarkup, Item.element, h.length, h.tag, List.drop_left, hwhole]
  rfl

/-! ## Tags in print -/

/-- The last thing in a tag before its slash and its bracket. -/
def Parts.last (t : Parts) : Text :=
  t.attributes.getLastD t.head

/-- The tag is read as the same tag however its attributes are spread: they stand alone,
and whether it closes itself does not depend on the white space in it. -/
def isLegible (o : MarkupOptions) (tag : StartTag) : Bool :=
  let t := parts o.templates tag.raw
  tag.isKept o ||
    (Tag.passes o.templates 4 (· == '>') .plain (Tag.writtenName tag.raw) &&
      t.attributes.all (Tag.standsAlone o.templates) &&
      (t.selfClosing ||
        (!Text.endsWith ['/'] (Text.trimRight t.last) && !Item.closesItself t.last)) &&
      tag.void == (Element.isVoid tag.name || t.selfClosing))

/-- The name of a printed tag ends where it is parted from the rest. -/
theorem takeWhile_print {name follow : Text} (hname : ∀ c ∈ name, Tag.inName c = true)
    (hfollow : Tag.Parted follow) :
    (name ++ follow).takeWhile Tag.inName = name ∧
      (name ++ follow).dropWhile Tag.inName = follow := by
  have hstop : follow.takeWhile Tag.inName = [] ∧ follow.dropWhile Tag.inName = follow := by
    cases follow with
    | nil => exact ⟨rfl, rfl⟩
    | cons c follow =>
      have hc : ¬ Tag.inName c = true := by
        rcases hfollow c rfl with h | rfl
        · simp [Tag.inName, h]
        · decide
      exact ⟨List.takeWhile_cons_of_neg hc, List.dropWhile_cons_of_neg hc⟩
  rw [List.takeWhile_append_of_pos hname, List.dropWhile_append_of_pos hname, hstop.1, hstop.2,
    List.append_nil]
  exact ⟨rfl, rfl⟩

/-- The name of a printed tag is read back. -/
theorem writtenName_print {name follow : Text} (hname : ∀ c ∈ name, Tag.inName c = true)
    (hfollow : Tag.Parted follow) : Tag.writtenName ('<' :: (name ++ follow)) = name := by
  rw [writtenName_eq rfl, (takeWhile_print hname hfollow).1]

/-- What stands between the name and the bracket of a printed tag is read back. -/
theorem inner_print {name body : Text} (hname : ∀ c ∈ name, Tag.inName c = true)
    (hbody : Tag.Parted (body ++ ['>'])) : inner ('<' :: (name ++ (body ++ ['>']))) = body := by
  rw [inner_eq rfl, (takeWhile_print hname hbody).2,
    if_pos (Tag.endsWith_singleton.mpr List.getLast?_concat), List.dropLast_concat]

/-- What is dropped at the end of a text is part of anything that does not pass the test
throughout. -/
theorem rdropWhile_append {p : Char → Bool} {c : Char} (hc : p c = false) (s t : Text) :
    ∃ u, (s ++ c :: t).rdropWhile p = s ++ c :: u ∧ (c :: t).rdropWhile p = c :: u := by
  induction t using List.reverseRecOn with
  | nil =>
    refine ⟨[], ?_, ?_⟩
    · exact List.rdropWhile_concat_neg p s c (by simp [hc])
    · exact List.rdropWhile_concat_neg p [] c (by simp [hc])
  | append_singleton t d ih =>
    rw [← List.cons_append, ← List.append_assoc]
    by_cases hd : p d = true
    · rw [List.rdropWhile_concat_pos p _ d hd, List.rdropWhile_concat_pos p _ d hd]
      exact ih
    · rw [List.rdropWhile_concat_neg p _ d hd, List.rdropWhile_concat_neg p _ d hd]
      exact ⟨t ++ [d], by simp, rfl⟩

/-- What a text ends in besides white space can be told from any part at its end that begins
with a letter. -/
theorem endsWith_trimRight_append {c : Char} (hblank : isBlank c = false) (s t : Text) :
    Text.endsWith ['/'] (Text.trimRight (s ++ c :: t)) =
      Text.endsWith ['/'] (Text.trimRight (c :: t)) := by
  obtain ⟨u, hu, hu'⟩ := rdropWhile_append (p := isBlank) hblank s t
  rw [show Text.trimRight (s ++ c :: t) = s ++ c :: u from hu,
    show Text.trimRight (c :: t) = c :: u from hu', Bool.eq_iff_iff, Tag.endsWith_singleton,
    Tag.endsWith_singleton, List.getLast?_append_of_ne_nil _ (List.cons_ne_nil c u)]

/-- Whether a tag closes itself can be told from its last part. -/
theorem closesItself_print {c : Char} (hblank : isBlank c = false) (hbracket : c ≠ '>') {t : Text}
    (htrim : Text.endsWith ['/'] (Text.trimRight (c :: t)) = false)
    (hcloses : Item.closesItself (c :: t) = false) {pad : Text} (hpad : pad.Blank) (s : Text) :
    Item.closesItself (s ++ c :: t ++ pad ++ ['>']) = false := by
  have hends := endsWith_trimRight_append hblank s
  have hstrip : ∀ s : Text, Item.closesItself s =
      Text.endsWith ['/'] (Text.trimRight (s.rdropWhile (· == '>'))) := fun _ => rfl
  rw [hstrip, List.rdropWhile_concat_pos _ _ _ (by decide)]
  -- brackets at the end are dropped with that of the tag, unless white space is between
  rcases List.eq_nil_or_concat pad with rfl | ⟨more, d, rfl⟩
  · obtain ⟨u, hu, hu'⟩ := rdropWhile_append (p := (· == '>')) (beq_false_of_ne hbracket) s t
    rw [List.append_nil, hu, hends, ← hu', ← hstrip]
    exact hcloses
  · rw [List.concat_eq_append] at hpad ⊢
    have hd : d ≠ '>' := by
      rintro rfl
      exact absurd (hpad.of_mem (c := '>') (by simp)) (by decide)
    rw [← List.append_assoc, List.rdropWhile_concat_neg _ _ _ (by simpa using hd),
      List.append_assoc, Text.trimRight_append_blank hpad]
    exact (hends t).trans htrim

/-- A tag that ends with a slash and a bracket closes itself. -/
theorem closesItself_slash (s : Text) : Item.closesItself (s ++ ['/', '>']) = true := by
  have hslash : Text.trimRight (s ++ ['/']) = s ++ ['/'] := Text.tight_concat (by decide) s
  have hstrip : (s ++ ['/', '>']).rdropWhile (· == '>') = s ++ ['/'] := by
    rw [show s ++ ['/', '>'] = s ++ ['/'] ++ ['>'] by simp,
      List.rdropWhile_concat_pos _ _ _ (by decide), List.rdropWhile_concat_neg _ _ _ (by decide)]
  rw [show Item.closesItself (s ++ ['/', '>']) =
    Text.endsWith ['/'] (Text.trimRight ((s ++ ['/', '>']).rdropWhile (· == '>'))) from rfl, hstrip,
    hslash]
  exact Tag.endsWith_singleton.mpr List.getLast?_concat

namespace Parts

/-- The parts are taken out of whatever is printed of them, up to its last bracket. -/
structure Readable (templates : Bool) (t : Parts) : Prop where
  head : ∃ name, t.head = '<' :: name ∧ ∀ c ∈ name, Tag.inName c = true
  rejoin : Tag.rejoin t.attributes = t.attributes
  ne_nil : ∀ a ∈ t.attributes, a ≠ []
  passes : ∀ a ∈ t.attributes, Tag.passes templates 2 isBlank .plain a = true
  last : t.selfClosing = false → Text.endsWith ['/'] (Text.trimRight t.last) = false

/-- The parts are read back from whatever is printed of them: its last bracket is found, too. -/
structure Legible (templates : Bool) (t : Parts) : Prop extends Readable templates t where
  passes_name : Tag.passes templates 4 (· == '>') .plain (t.head.drop 1) = true
  passes_bracket : ∀ a ∈ t.attributes, Tag.passes templates 4 (· == '>') .plain a = true
  closes : t.selfClosing = false → Item.closesItself t.last = false

section

variable {templates : Bool} {t : Parts} {attrs pad : Text}

/-- The last thing in a tag is its head, or one of its attributes. -/
theorem last_eq_or_mem (t : Parts) :
    (t.attributes = [] ∧ t.last = t.head) ∨ t.last ∈ t.attributes := by
  by_cases hnil : t.attributes = []
  · left
    rw [last, hnil]
    exact ⟨rfl, rfl⟩
  · right
    rw [last, List.getLastD_eq_getLast?, List.getLast?_eq_some_getLast hnil]
    exact List.getLast_mem hnil

/-- What is printed of a tag ends in its last part. -/
theorem Readable.exists_last (h : t.Readable templates)
    (hspread : Tag.Spread t.attributes attrs) :
    ∃ c u, t.last = c :: u ∧ isBlank c = false ∧
      ((attrs = [] ∧ t.head = c :: u) ∨ ∃ s, attrs = s ++ c :: u) := by
  rcases t.last_eq_or_mem with ⟨hnil, hlast⟩ | hmem
  · obtain ⟨name, hhead, -⟩ := h.head
    rw [hnil] at hspread
    cases hspread
    exact ⟨'<', name, hlast.trans hhead, by decide, .inl ⟨rfl, hhead⟩⟩
  · obtain ⟨c, u, hlast⟩ := List.exists_cons_of_ne_nil (h.ne_nil _ hmem)
    have hpasses := h.passes _ hmem
    rw [hlast] at hpasses
    obtain ⟨s, hs⟩ := (hspread.exists_last t.head).resolve_left fun hnone =>
      List.ne_nil_of_mem hmem hnone.1
    refine ⟨c, u, hlast, (Tag.passes_cons.mp hpasses).1 rfl, .inr ⟨s, ?_⟩⟩
    rw [hs, ← hlast]
    rfl

/-- The last part of a tag does not begin with a bracket. -/
theorem Legible.ne_bracket (h : t.Legible templates) {c : Char} {u : Text}
    (hlast : t.last = c :: u) : c ≠ '>' := by
  rintro rfl
  rcases t.last_eq_or_mem with ⟨-, hhead⟩ | hmem
  · obtain ⟨name, hname, -⟩ := h.head
    rw [hlast, hname] at hhead
    exact absurd (List.cons.inj hhead).1 (by decide)
  · have hpasses := h.passes_bracket _ hmem
    rw [hlast] at hpasses
    exact absurd ((Tag.passes_cons.mp hpasses).1 rfl) (by decide)

/-- Behind the attributes stands white space or the bracket. -/
theorem parted_tail (hpad : pad.Blank) (hself : t.selfClosing = true → pad ≠ []) (s : Text) :
    Tag.Parted (pad ++ (t.slash ++ '>' :: s)) := by
  cases hslash : t.selfClosing with
  | false =>
    rw [slash, hslash]
    exact Tag.Parted.of_blank hpad (Tag.parted_bracket s)
  | true =>
    obtain ⟨c, pad, rfl⟩ := List.exists_cons_of_ne_nil (hself hslash)
    intro d hd
    obtain rfl : c = d := Option.some.inj hd
    exact .inl (Text.blank_cons.mp hpad).1

/-- The bracket of a printed tag is found. -/
theorem Legible.tagLength {o : MarkupOptions} (h : t.Legible o.templates)
    (hspread : Tag.Spread t.attributes attrs) (hpad : pad.Blank)
    (hself : t.selfClosing = true → pad ≠ []) (s : Text) :
    Item.tagLength o (t.head ++ attrs ++ pad ++ t.slash ++ ['>'] ++ s) =
      (t.head ++ attrs ++ pad ++ t.slash ++ ['>']).length := by
  obtain ⟨name, hhead, -⟩ := h.head
  have hname := h.passes_name
  rw [hhead, List.drop_succ_cons, List.drop_zero] at hname
  have htail := parted_tail hpad hself s
  have hattrs := hspread.length h.passes_bracket htail
  -- name, attributes, padding and slash are passed over one after the other
  have hclose : Tag.length o.templates .plain (t.slash ++ '>' :: s) = t.slash.length + 1 := by
    have hbracket : Tag.length o.templates .plain ('>' :: s) = 1 := by
      rw [Tag.length, if_pos ⟨rfl, rfl⟩]
    unfold slash
    split
    · rw [List.singleton_append, Tag.length, if_neg (by decide),
        Tag.next_plain (by decide) (by decide) (by decide), hbracket]
      rfl
    · exact hbracket
  have htext : t.head ++ attrs ++ pad ++ t.slash ++ ['>'] ++ s =
      '<' :: (name ++ (attrs ++ (pad ++ (t.slash ++ '>' :: s)))) := by
    simp [hhead]
  rw [htext, Item.tagLength, List.drop_succ_cons, List.drop_zero, Tag.length_append hname
      (hspread.parted htail), hattrs, Tag.length_blank hpad, hclose]
  simp only [hhead, List.length_append, List.length_cons, List.length_nil]
  omega

/-- **The parts of a tag are read back from what is printed of them.** -/
theorem Readable.parts_print (h : t.Readable templates) (hspread : Tag.Spread t.attributes attrs)
    (hpad : pad.Blank) (hself : t.selfClosing = true → pad ≠ []) :
    parts templates (t.head ++ attrs ++ pad ++ t.slash ++ ['>']) = t := by
  obtain ⟨name, hhead, hletters⟩ := h.head
  obtain ⟨c, u, hlast, hblank, hends⟩ := h.exists_last hspread
  have hparted := hspread.parted (parted_tail hpad hself [])
  have htext : t.head ++ attrs ++ pad ++ t.slash ++ ['>'] =
      '<' :: (name ++ (attrs ++ (pad ++ (t.slash ++ ['>'])))) := by
    simp [hhead]
  have hbody : attrs ++ (pad ++ (t.slash ++ ['>'])) = attrs ++ pad ++ t.slash ++ ['>'] := by
    simp
  have hattributes : Tag.attributes templates (attrs ++ pad) = t.attributes := by
    rw [Tag.attributes, (hspread.words h.passes h.ne_nil hpad).1, h.rejoin]
  rw [htext, parts_eq, writtenName_print hletters hparted, attributeText, ← hhead]
  rw [hbody] at hparted ⊢
  rw [inner_print hletters hparted]
  -- the slash is taken off where one was printed, and no attribute looks like it
  cases hslash : t.selfClosing with
  | true =>
    have htrim : Text.trimRight (attrs ++ pad ++ ['/']) = attrs ++ pad ++ ['/'] :=
      Text.tight_concat (by decide) _
    rw [slash, if_pos hslash, htrim, Tag.endsWith_singleton.mpr List.getLast?_concat, if_pos rfl,
      List.dropLast_concat, hattributes, ← hslash]
  | false =>
    have htrim := h.last hslash
    have hopen : Text.endsWith ['/'] (Text.trimRight (attrs ++ pad)) = false := by
      rw [Text.trimRight_append_blank hpad]
      rcases hends with ⟨rfl, -⟩ | ⟨s, rfl⟩
      · rfl
      · rwa [endsWith_trimRight_append hblank, ← hlast]
    rw [slash, hslash, if_neg Bool.false_ne_true, List.append_nil, hopen, if_neg Bool.false_ne_true,
      hattributes, ← hslash]

/-- **Whether a printed tag closes itself** is read back from it. -/
theorem Legible.closesItself (h : t.Legible templates) (hspread : Tag.Spread t.attributes attrs)
    (hpad : pad.Blank) :
    Item.closesItself (t.head ++ attrs ++ pad ++ t.slash ++ ['>']) = t.selfClosing := by
  cases hslash : t.selfClosing with
  | true =>
    rw [slash, if_pos hslash, List.append_assoc _ ['/']]
    exact closesItself_slash _
  | false =>
    -- without a slash, what is in front of the bracket must not look like one
    obtain ⟨c, u, hlast, hblank, hends⟩ := h.exists_last hspread
    have htrim := h.last hslash
    have hcloses := h.closes hslash
    rw [hlast] at htrim hcloses
    have hprint := closesItself_print hblank (h.ne_bracket hlast) htrim hcloses hpad
    rw [slash, hslash, if_neg Bool.false_ne_true, List.append_nil]
    rcases hends with ⟨rfl, hhead⟩ | ⟨s, rfl⟩
    · rw [hhead, List.append_nil]
      exact hprint []
    · rw [← List.append_assoc]
      exact hprint (t.head ++ s)

end

end Parts

/-- The parts of a legible tag are read back from it, and say whether it is void. -/
theorem legible_parts {o : MarkupOptions} {tag : StartTag} (hlegible : tag.isLegible o = true)
    (hkept : tag.isKept o = false) :
    (parts o.templates tag.raw).Legible o.templates ∧
      tag.void = (Element.isVoid tag.name || (parts o.templates tag.raw).selfClosing) := by
  rw [isLegible] at hlegible
  simp only [hkept, Bool.false_or, Bool.and_eq_true, List.all_eq_true, Bool.or_eq_true,
    Bool.not_eq_true', beq_iff_eq] at hlegible
  obtain ⟨⟨⟨hname, halone⟩, hlast⟩, hvoid⟩ := hlegible
  obtain ⟨hrejoin, hne⟩ := Tag.attributes_spec o.templates (attributeText tag.raw)
  have hattributes : (parts o.templates tag.raw).attributes =
      Tag.attributes o.templates (attributeText tag.raw) := by
    rw [parts_eq]
  rw [← hattributes] at hrejoin hne
  simp only [Tag.standsAlone, Bool.and_eq_true] at halone
  have hlast' : (parts o.templates tag.raw).selfClosing = false →
      Text.endsWith ['/'] (Text.trimRight (parts o.templates tag.raw).last) = false ∧
        Item.closesItself (parts o.templates tag.raw).last = false := by
    intro hself
    rw [hself] at hlast
    exact hlast.resolve_left Bool.false_ne_true
  refine ⟨⟨⟨⟨_, rfl, fun c hc => List.mem_takeWhile_imp hc⟩, hrejoin, hne,
    fun a ha => (halone a ha).1, fun hself => (hlast' hself).1⟩, hname,
    fun a ha => (halone a ha).2, fun hself => (hlast' hself).2⟩, hvoid⟩

/-- A letter may stand in a name. -/
theorem inName_of_isAlpha {c : Char} (hc : c.isAlpha = true) : Tag.inName c = true := by
  have hblank : isBlank c = false := by
    by_contra h
    rw [Bool.not_eq_false] at h
    rw [isAlpha_eq_false_of_isBlank h] at hc
    cases hc
  have hne : ∀ d : Char, d.isAlpha = false → (c == d) = false := by
    intro d hd
    refine beq_false_of_ne ?_
    rintro rfl
    rw [hd] at hc
    cases hc
  rw [Tag.inName, hblank, hne '/' (by decide), hne '>' (by decide)]
  rfl

/-- Only the parts of a tag are printed, unless it is kept as it stands. -/
theorem render_congr {o : MarkupOptions} {tag : StartTag} (hkept : tag.isKept o = false) {q : Text}
    (hparts : parts o.templates q = parts o.templates tag.raw) (depth : Int) (column : Nat) :
    StartTag.render o depth column { tag with raw := q } = tag.render o depth column := by
  have hprinted : ¬ (tag.verbatim || AttributeWrap.ofName o.wrapAttributes = .preserve) = true := by
    simpa [isKept] using hkept
  unfold render
  dsimp only
  rw [if_neg hprinted, if_neg hprinted, hparts]

/-- **A legible tag is read back as it was**, with the characters that were printed, and is
then printed as it was. -/
theorem reads_render {o : MarkupOptions} (ho : o.IndentsBlank) {tag : StartTag}
    (hreads : Reads o tag) (hlegible : tag.isLegible o = true) (depth : Int) (column : Nat) :
    Reads o { tag with raw := tag.render o depth column } ∧
      Layout.Alike o tag { tag with raw := tag.render o depth column } := by
  cases hkept : tag.isKept o with
  | true =>
    rw [render_of_isKept hkept]
    exact ⟨hreads, rfl, rfl, fun _ _ => rfl⟩
  | false =>
    obtain ⟨attrs, pad, hspread, hpad, hwide, hprint⟩ := (renders_render ho hkept depth column).eq
    obtain ⟨hparts, hvoid⟩ := legible_parts hlegible hkept
    generalize tag.render o depth column = q at hprint
    have hself := fun h => hwide.mpr (.inl h)
    -- the rendered tag has the parts of the tag
    have hsame : parts o.templates q = parts o.templates tag.raw := by
      rw [hprint, hparts.parts_print hspread hpad hself]
    -- what is known of the tag from its first reading
    have hread := hreads.tag []
    rw [List.append_nil] at hread
    have hname : Text.lower (Tag.writtenName tag.raw) = tag.name := congrArg StartTag.name hread
    have hverbatim : Item.isUnformatted o (Text.lower (Tag.writtenName tag.raw)) = tag.verbatim :=
      congrArg StartTag.verbatim hread
    have hletters : ∀ c ∈ Tag.writtenName tag.raw, Tag.inName c = true :=
      fun c hc => List.mem_takeWhile_imp hc
    have hwritten : ∀ s, Tag.writtenName (q ++ s) = Tag.writtenName tag.raw := by
      intro s
      have hparted := hspread.parted (Parts.parted_tail hpad hself s)
      rw [← writtenName_print hletters hparted, hprint]
      simp [parts]
    refine ⟨⟨?_, fun s => ?_, fun s => ?_⟩, rfl, rfl, fun d c => ?_⟩
    · -- it begins like the tag
      obtain ⟨c, rest, hraw, halpha⟩ := hreads.head
      have hfirst : Tag.writtenName tag.raw = c :: rest.takeWhile Tag.inName := by
        rw [writtenName_eq hraw, List.takeWhile_cons_of_pos (inName_of_isAlpha halpha)]
      refine ⟨c, ?_, ?_, halpha⟩
      rotate_left
      · dsimp only
        rw [hprint, show (parts o.templates tag.raw).head = _ from congrArg (List.cons '<') hfirst]
        rfl
    · -- it ends where the scanner says
      dsimp only
      rw [hprint]
      exact hparts.tagLength hspread hpad hself s
    · -- and the scanner makes the same tag of it
      rw [Item.startTagOf]
      dsimp only
      rw [List.take_left, hwritten, hname, hvoid, ← hverbatim, hname, hprint,
        hparts.closesItself hspread hpad]
    · exact render_congr hkept hsame d c

/-! ## Tags that begin alike at every column -/

/-- The first line of the tag is as long at any column: the tag is never wrapped where a
line would be too long. -/
def isEven (o : MarkupOptions) (tag : StartTag) : Bool :=
  let wrap := AttributeWrap.ofName o.wrapAttributes
  tag.isKept o || decide ((parts o.templates tag.raw).attributes.length < 2) ||
    decide (o.wrapLineLength = 0) ||
    decide (wrap = .force ∨ wrap = .forceAligned ∨ wrap = .forceExpand)

/-- The first line ends at the line feed, whatever follows. -/
theorem firstLine_append (s t t' : Text) :
    Text.firstLine (s ++ '\n' :: t) = Text.firstLine (s ++ '\n' :: t') := by
  induction s with
  | nil => rfl
  | cons c s ih =>
    unfold Text.firstLine at ih ⊢
    rw [List.cons_append, List.cons_append, List.takeWhile_cons, List.takeWhile_cons, ih]

/-- Fewer than two attributes are not wrapped. -/
theorem wrapped_of_lt {t : Parts} (h : t.attributes.length < 2) (limit : Int) (pad : Text)
    (column : Nat) : t.wrapped limit pad column = t.single := by
  unfold Parts.wrapped
  split
  · rfl
  · rename_i first rest hattrs
    rw [hattrs, List.length_cons] at h
    obtain rfl : rest = [] := List.length_eq_zero_iff.mp (by omega)
    simp [Parts.single, hattrs, Parts.filled, Text.join]

/-- Forced wraps leave the first line alone, whatever the indentation. -/
theorem firstLine_forced (t : Parts) (pad pad' : Text) :
    Text.firstLine (t.forced pad) = Text.firstLine (t.forced pad') := by
  unfold Parts.forced
  split
  · rename_i first rest _
    cases rest with
    | nil => rfl
    | cons a rest =>
      have hcut : ∀ pad : Text,
          t.head ++ ' ' :: first ++ Parts.stacked pad (a :: rest) ++ t.close =
            t.head ++ ' ' :: first ++ '\n' :: (pad ++ a ++ Parts.stacked pad rest ++ t.close) := by
        intro pad
        simp [Parts.stacked]
      rw [hcut, hcut]
      exact firstLine_append ..
  · rfl

/-- **The first line of an even tag is as long at any column.** -/
theorem evenStart_render {o : MarkupOptions} {tag : StartTag} (h : tag.isEven o = true)
    (depth : Int) : Printer.EvenStart fun column => tag.render o depth column := by
  intro column column'
  dsimp only
  cases hkept : tag.isKept o with
  | true => rw [render_of_isKept hkept, render_of_isKept hkept]
  | false =>
    have hprinted :
        ¬ (tag.verbatim || AttributeWrap.ofName o.wrapAttributes = .preserve) = true := by
      simpa [isKept] using hkept
    simp only [isEven, hkept, Bool.false_or, Bool.or_eq_true, decide_eq_true_eq] at h
    unfold render
    dsimp only
    rw [if_neg hprinted, if_neg hprinted]
    generalize AttributeWrap.ofName o.wrapAttributes = wrap at h ⊢
    generalize parts o.templates tag.raw = t at h ⊢
    -- with fewer than two attributes there is nothing to wrap
    by_cases hfew : t.attributes.length < 2
    · simp only [wrapped_of_lt hfew, ite_self]
      cases wrap <;> simp [hfew]
    · have hmany : ¬ (t.attributes.length < 2 ∧
          (wrap = .force ∨ wrap = .forceAligned ∨ wrap = .forceExpand)) :=
        fun hforce => hfew hforce.1
      have hwide := (or_assoc.mp h).resolve_left hfew
      simp only [if_neg hmany]
      -- forced wraps do not ask for the column, and the others do only within a line length
      cases wrap with
      | force | forceExpand => rfl
      | forceAligned => exact congrArg List.length (firstLine_forced t _ _)
      | preserve | auto | alignedMultiple =>
        have hzero : o.wrapLineLength = 0 := by simpa using hwide
        simp only [hzero, true_or, if_true]

end StartTag

end TemplateTidy
