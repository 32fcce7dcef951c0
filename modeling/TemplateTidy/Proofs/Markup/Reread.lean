import TemplateTidy.Proofs.Markup.Legible

/-!
# Attributes on other lines

However the attributes of a tag are wrapped, they are read back from the tag in print, with
its name and with whether it closes itself. It is enough that the reader of attributes
stands outside of quotes and atoms where the attributes end. It has then passed over each
word from white space to white space, and so it does where the white space is another.

Words that have been joined around an equals sign are passed over as well, since no atom
opens with an equals sign inside its opener.

Main results: `Tag.passes_attributes`, `StartTag.readable_parts`, `StartTag.parts_render`.
-/

namespace TemplateTidy

namespace Tag

section

variable {templates : Bool} {lead : Nat} {stop : Char → Bool} {spot : Spot} {s t : Text}

/-! ## Words between white space -/

/-- To leave an atom, a reader needs room for the rest of its end. -/
theorem le_length_of_passes {n : Nat} (h : passes templates lead stop (.leaving n) s = true) :
    n ≤ s.length := by
  induction s generalizing n with
  | nil => cases passes_nil.mp h
  | cons c s ih =>
    have hnext := (passes_cons.mp h).2
    match n with
    | 0 => exact Nat.zero_le _
    | 1 => simp
    | n + 2 => exact Nat.succ_le_succ (ih hnext)

/-- Where a reader goes is told by what it passes over, up to white space. -/
theorem next_append_of_passes {c : Char} (hapart : Apart (c :: s) t)
    (h : passes templates lead stop (spot.next templates lead c (s ++ t)) s = true) :
    spot.next templates lead c (s ++ t) = spot.next templates lead c s := by
  refine next_congr hapart fun closer hspot => ?_
  rw [hspot, Spot.next] at h
  cases hcloser : closer.isPrefixOf (c :: (s ++ t)) with
  | true =>
    -- the atom is left within the text, and so its whole end lies in there
    rw [hcloser, if_pos rfl] at h
    have hroom := le_length_of_passes h
    have hlength : closer.length ≤ (c :: s).length := by
      rw [List.length_cons]
      omega
    rw [← hcloser, ← List.cons_append, isPrefixOf_append_of_length_le hlength]
  | false =>
    refine (eq_false_of_ne_true fun hpre => ?_).symm
    rw [List.isPrefixOf_iff_prefix] at hpre
    have hlong : closer <+: c :: (s ++ t) := hpre.trans (List.prefix_append (c :: s) t)
    rw [← List.isPrefixOf_iff_prefix, hcloser] at hlong
    cases hlong

/-- The word at the front of a text goes up to white space. -/
theorem exists_front (templates : Bool) (spot : Spot) (s : Text) :
    ∃ rest, s = (words templates spot s).front ++ rest ∧ Parted rest := by
  induction s generalizing spot with
  | nil => exact ⟨[], rfl, fun d hd => nomatch hd⟩
  | cons c s ih =>
    rw [words]
    split
    · rename_i hblank
      exact ⟨c :: s, rfl, parted_of_blank hblank.2 s⟩
    · obtain ⟨rest, hrest, hparted⟩ := ih (spot.next templates 2 c s)
      exact ⟨rest, congrArg (List.cons c) hrest, hparted⟩

/-- The reader of attributes passes over each word, if it stands outside of quotes and atoms
behind the last one. -/
theorem passes_words (h : passes templates 2 (fun _ => false) spot s = true) :
    passes templates 2 isBlank spot (words templates spot s).front = true ∧
      ∀ w ∈ (words templates spot s).others, passes templates 2 isBlank .plain w = true := by
  induction s generalizing spot with
  | nil => exact ⟨passes_nil.mpr (passes_nil.mp h), fun w hw => nomatch hw⟩
  | cons c s ih =>
    have hs := (passes_cons.mp h).2
    rw [words]
    split
    · -- white space between words: the reader starts anew
      rename_i hblank
      obtain ⟨rfl, hc⟩ := hblank
      rw [next_blank hc] at hs
      obtain ⟨hfront, hothers⟩ := ih hs
      refine ⟨passes_nil.mpr rfl, fun w hw => ?_⟩
      rw [Words.divide, Words.toList] at hw
      split at hw
      · exact hothers w hw
      · rcases List.mem_cons.mp hw with rfl | hw
        · exact hfront
        · exact hothers w hw
    · rename_i hopen
      obtain ⟨hfront, hothers⟩ := ih hs
      refine ⟨passes_cons.mpr ⟨fun hspot => ?_, ?_⟩, hothers⟩
      · exact eq_false_of_ne_true fun hc => hopen ⟨hspot, hc⟩
      · -- the reader does not look beyond the word
        obtain ⟨rest, hrest, hparted⟩ := exists_front templates (spot.next templates 2 c s) s
        generalize words templates (spot.next templates 2 c s) s = w at hfront hrest ⊢
        rw [hrest] at hfront
        rwa [next_append_of_passes (hparted.apart _) hfront] at hfront

/-- The words of attributes that are passed over are passed over one by one. -/
theorem passes_toList_words (h : passes templates 2 (fun _ => false) .plain s = true) :
    ∀ w ∈ (words templates .plain s).toList, passes templates 2 isBlank .plain w = true := by
  obtain ⟨hfront, hothers⟩ := passes_words h
  rw [Words.toList]
  split
  · exact hothers
  · exact List.forall_mem_cons.mpr ⟨hfront, hothers⟩

/-! ## Words joined around equals signs -/

theorem Apart.tail {c : Char} (h : Apart (c :: s) t) (hs : s ≠ []) : Apart s t := by
  obtain ⟨d, s, rfl⟩ := List.exists_cons_of_ne_nil hs
  exact h

/-- A reader passes over two texts between which no atom opens. -/
theorem passes_append (hs : passes templates lead stop spot s = true)
    (ht : passes templates lead stop .plain t = true) (hapart : s ≠ [] → Apart s t) :
    passes templates lead stop spot (s ++ t) = true := by
  induction s generalizing spot with
  | nil =>
    rw [passes_nil.mp hs]
    exact ht
  | cons c s ih =>
    obtain ⟨hstop, hrest⟩ := passes_cons.mp hs
    have hseam := hapart (List.cons_ne_nil c s)
    rw [List.cons_append, passes_cons, next_append hs hseam]
    exact ⟨hstop, ih hrest hseam.tail⟩

/-- No atom opens where two words are joined. -/
theorem apart_of_joined {v w : Text}
    (h : (['='].isPrefixOf w || Text.endsWith ['='] v) = true) : Apart v w := by
  rcases Bool.or_eq_true_iff.mp h with hnext | hlast
  · refine .inl fun c hc => ?_
    obtain ⟨more, rfl⟩ := List.isPrefixOf_iff_prefix.mp hnext
    obtain rfl : '=' = c := Option.some.inj hc
    decide
  · exact .inr ⟨'=', endsWith_singleton.mp hlast, by decide⟩

/-- Words that are passed over are so when they are joined. -/
theorem passes_rejoinAfter {w : Text} {ws : List Text}
    (hw : passes templates lead stop .plain w = true)
    (hws : ∀ v ∈ ws, passes templates lead stop .plain v = true) :
    ∀ a ∈ rejoinAfter w ws, passes templates lead stop .plain a = true := by
  induction ws generalizing w with
  | nil => exact List.forall_mem_singleton.mpr hw
  | cons v ws ih =>
    obtain ⟨hv, hws⟩ := List.forall_mem_cons.mp hws
    rw [rejoinAfter]
    split
    · rename_i hjoined
      exact ih (passes_append hw hv fun _ => apart_of_joined hjoined) hws
    · exact List.forall_mem_cons.mpr ⟨hw, ih hv hws⟩

/-- **The reader of attributes passes over each attribute**, if it stands outside of quotes
and atoms behind the last one. -/
theorem passes_attributes (h : passes templates 2 (fun _ => false) .plain s = true) :
    ∀ a ∈ attributes templates s, passes templates 2 isBlank .plain a = true := by
  have hwords := passes_toList_words h
  rw [attributes]
  cases hlist : (words templates .plain s).toList with
  | nil => exact fun a ha => absurd ha List.not_mem_nil
  | cons w ws =>
    rw [hlist] at hwords
    obtain ⟨hw, hws⟩ := List.forall_mem_cons.mp hwords
    exact passes_rejoinAfter hw hws

end

/-! ## The last attribute -/

/-- The last attribute ends in the last word. -/
theorem exists_getLast?_rejoinAfter (w : Text) (ws : List Text) :
    ∃ front, (rejoinAfter w ws).getLast? = some (front ++ ws.getLastD w) := by
  induction ws generalizing w with
  | nil => exact ⟨[], rfl⟩
  | cons v ws ih =>
    rw [rejoinAfter, List.getLastD_cons]
    split
    · obtain ⟨front, hfront⟩ := ih (w ++ v)
      cases ws with
      | nil => exact ⟨w, rfl⟩
      | cons u ws =>
        rw [List.getLastD_cons] at hfront ⊢
        exact ⟨front, hfront⟩
    · obtain ⟨front, hfront⟩ := ih v
      refine ⟨front, ?_⟩
      rw [List.getLast?_cons, hfront]
      rfl

/-- Behind the last word there is only white space. -/
theorem exists_getLast?_wordsOf {cs : List Chunk} (h : Chunk.Spaced cs) :
    (Chunk.wordsOf cs = [] ∧ (Chunk.textOf cs).Blank) ∨
      ∃ front w gap : Text, (Chunk.wordsOf cs).getLast? = some w ∧
        Chunk.textOf cs = front ++ w ++ gap ∧ gap.Blank := by
  induction cs with
  | nil => exact .inl ⟨rfl, rfl⟩
  | cons x cs ih =>
    cases x with
    | gap s =>
      obtain ⟨hs, -, hcs⟩ := h
      rcases ih hcs with ⟨hnil, hblank⟩ | ⟨front, w, gap, hlast, htext, hgap⟩
      · exact .inl ⟨hnil, Text.blank_append.mpr ⟨hs, hblank⟩⟩
      · refine .inr ⟨s ++ front, w, gap, hlast, ?_, hgap⟩
        rw [Chunk.textOf_cons, htext]
        simp [Chunk.text]
    | word s =>
      rcases ih h.2.2 with ⟨hnil, hblank⟩ | ⟨front, w, gap, hlast, htext, hgap⟩
      · -- the word is the last one
        refine .inr ⟨[], s, Chunk.textOf cs, ?_, rfl, hblank⟩
        rw [Chunk.wordsOf_word, hnil]
        rfl
      · -- a later word is
        refine .inr ⟨s ++ front, w, gap, ?_, ?_, hgap⟩
        · rw [Chunk.wordsOf_word, List.getLast?_cons, hlast]
          rfl
        · rw [Chunk.textOf_cons, htext]
          simp [Chunk.text]

/-- The last attribute and the text in which it is written end alike, white space at the end
apart. -/
theorem endsWith_of_getLast?_attributes {templates : Bool} {s a : Text}
    (h : passes templates 2 (fun _ => false) .plain s = true)
    (hlast : (attributes templates s).getLast? = some a) :
    Text.endsWith ['/'] (Text.trimRight a) = Text.endsWith ['/'] (Text.trimRight s) := by
  have hspaced := spaced_chunks templates .plain s
  have hpasses := passes_toList_words h
  rw [words_eq_ofChunks, Words.toList_ofChunks hspaced] at hpasses
  rw [attributes_eq] at hlast
  rcases exists_getLast?_wordsOf hspaced with ⟨hnil, -⟩ | ⟨front, w, gap, hword, htext, hgap⟩
  · rw [hnil] at hlast
    cases hlast
  · rw [textOf_chunks] at htext
    -- the last word begins with a letter
    have hmem := List.mem_of_getLast? hword
    obtain ⟨c, u, rfl⟩ := List.exists_cons_of_ne_nil (Chunk.ne_nil_of_mem_wordsOf hspaced w hmem)
    have hletter : isBlank c = false := (passes_cons.mp (hpasses _ hmem)).1 rfl
    obtain ⟨before, rfl⟩ : ∃ before, a = before ++ c :: u := by
      cases hwords : Chunk.wordsOf (chunks templates .plain s) with
      | nil =>
        rw [hwords] at hword
        cases hword
      | cons v ws =>
        obtain ⟨before, hbefore⟩ := exists_getLast?_rejoinAfter v ws
        rw [hwords, List.getLast?_cons, Option.some_inj, ← List.getLastD_eq_getLast?] at hword
        rw [hwords, rejoin, hbefore, hword] at hlast
        exact ⟨before, (Option.some.inj hlast).symm⟩
    rw [htext, Text.trimRight_append_blank hgap, StartTag.endsWith_trimRight_append hletter,
      StartTag.endsWith_trimRight_append hletter]

end Tag

namespace StartTag

/-! ## Tags -/

/-- Where the attributes of the tag end, their reader stands outside of quotes and atoms. -/
def endsPlainly (templates : Bool) (raw : Text) : Bool :=
  Tag.passes templates 2 (fun _ => false) .plain (attributeText raw)

/-- **The parts of a tag whose attributes end plainly can be read back.** -/
theorem readable_parts {templates : Bool} {raw : Text} (h : endsPlainly templates raw = true) :
    (parts templates raw).Readable templates := by
  obtain ⟨hrejoin, hne⟩ := Tag.attributes_spec templates (attributeText raw)
  have hname : ∀ c ∈ Tag.writtenName raw, Tag.inName c = true :=
    fun c hc => List.mem_takeWhile_imp hc
  have hpasses := Tag.passes_attributes h
  have hattributes : Tag.attributes templates (attributeText raw) =
      (parts templates raw).attributes := by
    rw [parts_eq]
  rw [hattributes] at hrejoin hne hpasses
  refine ⟨⟨_, rfl, hname⟩, hrejoin, hne, hpasses, fun hself => ?_⟩
  rw [parts_eq] at hself ⊢
  dsimp only at hself
  have hinner : attributeText raw = inner raw := by
    rw [attributeText, if_neg (by rw [hself]; exact Bool.false_ne_true)]
  rw [Parts.last, List.getLastD_eq_getLast?]
  dsimp only
  cases hlast : (Tag.attributes templates (attributeText raw)).getLast? with
  | none =>
    -- no slash stands in the name
    refine eq_false_of_ne_true fun hends => ?_
    have hmem : '/' ∈ '<' :: Tag.writtenName raw :=
      (List.rdropWhile_prefix isBlank _).subset
        (List.mem_of_getLast? (Tag.endsWith_singleton.mp hends))
    rcases List.mem_cons.mp hmem with hbracket | hletter
    · exact absurd hbracket (by decide)
    · exact absurd (hname _ hletter) (by decide)
  | some a => rw [Option.getD_some, Tag.endsWith_of_getLast?_attributes h hlast, hinner, hself]

/-- **Wrapping keeps the attributes.** A start tag in print, at every depth and column, has
the name, the attributes and the slash of the tag that was read, if its attributes leave no
quote and no atom open. -/
theorem parts_render {o : MarkupOptions} (ho : o.IndentsBlank) {tag : StartTag}
    (hplain : endsPlainly o.templates tag.raw = true) (depth : Int) (column : Nat) :
    parts o.templates (tag.render o depth column) = parts o.templates tag.raw := by
  cases hkept : tag.isKept o with
  | true => rw [render_of_isKept hkept]
  | false =>
    obtain ⟨attrs, pad, hspread, hpad, hwide, hprint⟩ := (renders_render ho hkept depth column).eq
    rw [hprint]
    exact (readable_parts hplain).parts_print hspread hpad fun hself => hwide.mpr (.inl hself)

/-- White space around an equals sign goes, white space in quotes and atoms stays, and a
slash that stands apart from the bracket still closes the tag. -/
theorem parts_render_aligned :
    let o : MarkupOptions := { wrapAttributes := "force-aligned".toList }
    let tag : StartTag :=
      ⟨"<a  title = \"x  y\" <?  z ?>\thref='b' / >".toList, "a".toList, true, false⟩
    endsPlainly o.templates tag.raw = true ∧
      tag.render o 1 4 = "<a title=\"x  y\"\n       <?  z ?>\n       href='b' />".toList ∧
      parts o.templates (tag.render o 1 4) = ⟨"<a".toList,
        ["title=\"x  y\"".toList, "<?  z ?>".toList, "href='b'".toList], true⟩ := by
  intro o tag
  have hplain : endsPlainly o.templates tag.raw = true := by decide +kernel
  exact ⟨hplain, by decide +kernel,
    (parts_render (by decide) hplain 1 4).trans (by decide +kernel)⟩

end StartTag

end TemplateTidy
