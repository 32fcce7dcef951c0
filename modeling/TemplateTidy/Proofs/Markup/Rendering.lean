import TemplateTidy.Markup.Attributes
import TemplateTidy.Proofs.Markup.Printing
import TemplateTidy.Proofs.Text.Typeset

/-!
# What becomes of a start tag

A start tag is printed word by word: its head, the words of its attributes, the
slash of a tag that closes itself, and the bracket. Before an attribute there is
always white space. Within one there is none, and what the source has around the
equals sign is left out.

White space comes into a tag in three places where the source may have none, the
*splits* of the tag: behind its name, before its slash, and before its bracket if
that gets a line of its own.

Main results: `StartTag.exists_typeset`, `StartTag.textOf_chunks`.
-/

namespace TemplateTidy

open Chunk

/-! ## The words of a tag as chunks -/

namespace Tag

/-- Puts a letter in front of chunks. -/
def consLetter (c : Char) : List Chunk → List Chunk
  | .word s :: rest => .word (c :: s) :: rest
  | chunks => .word [c] :: chunks

/-- The text behind the name of a tag, cut at white space outside of quotes and
atoms. -/
def chunks (templates : Bool) : Spot → Text → List Chunk
  | _, [] => []
  | spot, c :: cs =>
    if spot = .plain ∧ isBlank c then .gap [c] :: chunks templates .plain cs
    else consLetter c (chunks templates (spot.next templates 2 c cs) cs)

/-- A letter in front of chunks is in front of their text. -/
theorem textOf_consLetter (c : Char) (cs : List Chunk) :
    textOf (consLetter c cs) = c :: textOf cs := by
  unfold consLetter
  split <;> rfl

/-- The chunks of a tag are its text. -/
theorem textOf_chunks (templates : Bool) (spot : Spot) (s : Text) :
    textOf (chunks templates spot s) = s := by
  induction s generalizing spot with
  | nil => rfl
  | cons c s ih =>
    rw [chunks]
    split
    · rw [textOf_cons, ih]
      rfl
    · rw [textOf_consLetter, ih]

/-- A letter in front joins the first word or begins one. -/
theorem spaced_consLetter (c : Char) {cs : List Chunk} (h : Spaced cs) :
    Spaced (consLetter c cs) := by
  unfold consLetter
  split
  · exact ⟨List.cons_ne_nil _ _, h.2.1, h.2.2⟩
  · rename_i hother
    refine ⟨List.cons_ne_nil _ _, fun s hs => ?_, h⟩
    obtain ⟨rest, rfl⟩ := List.head?_eq_some_iff.mp hs
    exact hother s rest rfl

/-- The chunks of a tag are words with gaps between them. -/
theorem spaced_chunks (templates : Bool) (spot : Spot) (s : Text) :
    Spaced (chunks templates spot s) := by
  induction s generalizing spot with
  | nil => trivial
  | cons c s ih =>
    rw [chunks]
    split
    · rename_i hblank
      exact ⟨Text.blank_cons.mpr ⟨hblank.2, Text.blank_nil⟩, List.cons_ne_nil c [], ih _⟩
    · exact spaced_consLetter c (ih _)

/-- The first chunk is a word exactly if the text begins with a letter. -/
theorem chunks_eq_word_iff {templates : Bool} {s : Text} {c : Char} :
    (∃ t more, chunks templates .plain s = .word (c :: t) :: more) ↔
      s.head? = some c ∧ isBlank c = false := by
  cases s with
  | nil => simp [chunks]
  | cons d s =>
    cases hd : isBlank d with
    -- white space begins a gap
    | true =>
      rw [chunks, if_pos ⟨rfl, hd⟩]
      refine iff_of_false (fun ⟨t, more, h⟩ => nomatch h) ?_
      rintro ⟨hhead, hc⟩
      obtain rfl : d = c := Option.some.inj hhead
      rw [hd] at hc
      exact Bool.noConfusion hc
    -- anything else begins a word, alone or in front of one
    | false =>
      rw [chunks, if_neg (by simp [hd])]
      obtain ⟨t, more, hletter⟩ : ∃ t more,
          consLetter d (chunks templates (Spot.next templates 2 .plain d s) s) =
            .word (d :: t) :: more := by
        unfold consLetter
        split
        · exact ⟨_, _, rfl⟩
        · exact ⟨_, _, rfl⟩
      rw [hletter]
      constructor
      · rintro ⟨t', more', heq⟩
        obtain ⟨hword, -⟩ := List.cons.inj heq
        obtain ⟨rfl, -⟩ := List.cons.inj (Chunk.word.inj hword)
        exact ⟨rfl, hd⟩
      · rintro ⟨hhead, -⟩
        obtain rfl : d = c := Option.some.inj hhead
        exact ⟨t, more, rfl⟩

/-- The words of chunks with the one at the front first. -/
def Words.ofChunks : List Chunk → Words
  | .word s :: rest => ⟨s, wordsOf rest⟩
  | chunks => ⟨[], wordsOf chunks⟩

/-- The words of chunks, in order. -/
theorem Words.toList_ofChunks {cs : List Chunk} (h : Spaced cs) :
    (Words.ofChunks cs).toList = wordsOf cs := by
  unfold Words.ofChunks Words.toList
  split
  · rw [if_neg (by simpa using h.1), wordsOf_word]
  · rfl

/-- A letter in front of chunks is in front of their words. -/
theorem Words.ofChunks_consLetter (c : Char) (cs : List Chunk) :
    Words.ofChunks (consLetter c cs) = (Words.ofChunks cs).cons c := by
  cases cs with
  | nil => rfl
  | cons x rest => cases x <;> rfl

/-- **The words of a tag are those of its chunks.** -/
theorem words_eq_ofChunks (templates : Bool) (spot : Spot) (s : Text) :
    words templates spot s = Words.ofChunks (chunks templates spot s) := by
  induction s generalizing spot with
  | nil => rfl
  | cons c s ih =>
    rw [words, chunks]
    split
    · rw [ih, Words.divide, Words.toList_ofChunks (spaced_chunks ..)]
      rfl
    · rw [ih, Words.ofChunks_consLetter]

/-- The attributes are the words of the chunks, joined around equals signs. -/
theorem attributes_eq (templates : Bool) (s : Text) :
    attributes templates s = rejoin (wordsOf (chunks templates .plain s)) := by
  rw [attributes, words_eq_ofChunks, Words.toList_ofChunks (spaced_chunks ..)]

/-! ## Words in print -/

/-- Texts are printed one after the other, with white space before each. -/
inductive Spread : List Text → Text → Prop
  | nil : Spread [] []
  | cons {pad : Text} (hpad : pad.Blank) (hne : pad ≠ []) (a : Text) {as : List Text} {out : Text}
      (h : Spread as out) : Spread (a :: as) (pad ++ a ++ out)

/-- Words are printed behind another one, with white space before each that is not
next to an equals sign. -/
inductive Sewn : Text → List Text → Text → Prop
  | nil (last : Text) : Sewn last [] []
  | cons {last pad w : Text} (hpad : pad.Blank)
      (hsewn : pad = [] → w.head? = some '=' ∨ last.getLast? = some '=') {ws : List Text}
      {out : Text} (h : Sewn w ws out) : Sewn last (w :: ws) (pad ++ w ++ out)

/-- A text ends with a character if that is its last one. -/
theorem endsWith_singleton {c : Char} {s : Text} :
    Text.endsWith [c] s = true ↔ s.getLast? = some c := by
  rw [Text.endsWith, List.isPrefixOf_iff_prefix, List.reverse_prefix]
  constructor
  · rintro ⟨t, rfl⟩
    exact List.getLast?_concat
  · intro h
    obtain ⟨t, rfl⟩ := List.getLast?_eq_some_iff.mp h
    exact List.suffix_append t [c]

/-- **Attributes in print are words sewn together**: white space is missing at equals signs
only. -/
theorem sewn_rejoinAfter {word last : Text} {ws : List Text} {out : Text}
    (hlast : word.getLast? = last.getLast?) (hws : ∀ w ∈ ws, w ≠ [])
    (h : Spread (rejoinAfter word ws) out) :
    ∃ pad more, out = pad ++ word ++ more ∧ pad.Blank ∧ pad ≠ [] ∧ Sewn last ws more := by
  induction ws generalizing word last out with
  | nil =>
    rw [rejoinAfter] at h
    cases h with
    | @cons pad hpad hne _ _ _ hnil =>
      cases hnil
      exact ⟨pad, [], rfl, hpad, hne, .nil last⟩
  | cons w ws ih =>
    have hw : w ≠ [] := hws w (List.mem_cons_self ..)
    have hrest : ∀ v ∈ ws, v ≠ [] := fun v hv => hws v (List.mem_cons_of_mem _ hv)
    rw [rejoinAfter] at h
    split at h
    · -- the word is joined to the one before it
      rename_i hjoin
      have hsame : (word ++ w).getLast? = w.getLast? := List.getLast?_append_of_ne_nil _ hw
      obtain ⟨pad, more, rfl, hpad, hne, hsewn⟩ := ih hsame hrest h
      have hequals : w.head? = some '=' ∨ last.getLast? = some '=' := by
        rw [Bool.or_eq_true, List.isPrefixOf_iff_prefix, endsWith_singleton, hlast] at hjoin
        refine hjoin.imp_left ?_
        rintro ⟨t, rfl⟩
        rfl
      have hglued : Sewn last (w :: ws) ([] ++ w ++ more) :=
        .cons Text.blank_nil (fun _ => hequals) hsewn
      exact ⟨pad, w ++ more, by simp, hpad, hne, hglued⟩
    · -- the word begins an attribute of its own
      cases h with
      | @cons pad hpad hne _ _ more hmore =>
        obtain ⟨pad', more', rfl, hpad', hne', hsewn⟩ := ih rfl hrest hmore
        exact ⟨pad, _, rfl, hpad, hne, .cons hpad' (fun h => absurd h hne') hsewn⟩

/-- Attributes in print are their words in print. -/
theorem sewn_of_spread {ws : List Text} {out : Text} (hws : ∀ w ∈ ws, w ≠ [])
    (h : Spread (rejoin ws) out) :
    (ws = [] ∧ out = []) ∨ ∃ w ws' pad more, ws = w :: ws' ∧ out = pad ++ w ++ more ∧ pad.Blank ∧
      pad ≠ [] ∧ Sewn w ws' more := by
  cases ws with
  | nil =>
    rw [rejoin] at h
    cases h
    exact .inl ⟨rfl, rfl⟩
  | cons w ws =>
    obtain ⟨pad, more, hout, hpad, hne, hsewn⟩ :=
      sewn_rejoinAfter rfl (fun v hv => hws v (List.mem_cons_of_mem _ hv)) h
    exact .inr ⟨w, ws, pad, more, rfl, hout, hpad, hne, hsewn⟩

end Tag

/-- Words behind a word, typeset as they are sewn. -/
theorem Typeset.sewn {cut : Text → Prop} {chunks : List Chunk} {cells : List Cell} {rest : Text}
    (h : Typeset cut chunks cells rest) {last : Text} (hlast : last ≠ [])
    (hends : last <:+ Cell.source cells) {more : List Chunk} (hspaced : Spaced more)
    (hnext : rest = [] → GapFirst more) {out : Text} (hsewn : Tag.Sewn last (wordsOf more) out) :
    ∃ cells' rest', Typeset cut (chunks ++ more) (cells ++ cells') rest' ∧
      Cell.printed cells' = out := by
  induction more generalizing chunks cells rest last out with
  | nil =>
    cases hsewn
    exact ⟨[], rest, by simpa using h, rfl⟩
  | cons x more ih =>
    cases x with
    -- a gap waits for the next word
    | gap s =>
      obtain ⟨hblank, hne, hmore⟩ := hspaced
      have hnext' : rest ++ s = [] → GapFirst more := by
        intro hnil
        exact absurd (List.append_eq_nil_iff.mp hnil).2 hne
      obtain ⟨cells', rest', htypeset, hprinted⟩ := ih (h.gap hblank) hlast hends hmore hnext' hsewn
      refine ⟨cells', rest', ?_, hprinted⟩
      rwa [List.append_assoc, List.singleton_append] at htypeset
    -- a word makes a cell of its own, with the white space it is sewn on with
    | word w =>
      obtain ⟨hw, hgap, hmore⟩ := hspaced
      rw [wordsOf_word] at hsewn
      cases hsewn with
      | @cons _ pad _ hpad hequals _ out hsewn =>
        have hword := h.word hpad hw
          (fun hrest => absurd rfl (hnext hrest w))
          -- no white space: then one of the two has an equals sign at the seam
          (fun _ hnil c hc => by
            rcases hequals hnil with heq | heq
            · exact .inr (.inr (.inl (Option.some.inj (hc.symm.trans heq))))
            · obtain ⟨t, ht⟩ := hends
              refine .inr (.inl ?_)
              rwa [← ht, List.getLast?_append_of_ne_nil _ hlast])
        have hends' : w <:+ Cell.source (cells ++ [⟨rest, pad, w⟩]) := by
          refine ⟨Cell.source cells ++ rest, ?_⟩
          simp
        obtain ⟨cells', rest', htypeset, hprinted⟩ :=
          ih hword hw hends' hmore (fun _ => hgap) hsewn
        refine ⟨⟨rest, pad, w⟩ :: cells', rest', ?_, by simp [hprinted]⟩
        rwa [List.append_assoc, List.append_assoc, List.singleton_append,
          List.singleton_append] at htypeset

/-- The words of attributes, typeset behind the head of a tag. The first of them may
stand directly behind it. -/
theorem Typeset.attributes {cut : Text → Prop} {chunks : List Chunk} {cells : List Cell}
    (h : Typeset cut chunks cells []) {head : Text} (hhead : head ≠ [])
    (hends : head <:+ Cell.source cells) {more : List Chunk} (hspaced : Spaced more) {out : Text}
    (hspread : Tag.Spread (Tag.rejoin (wordsOf more)) out) :
    ∃ cells' rest', Typeset
        (fun t => cut t ∨ ∃ c s more', more = .word (c :: s) :: more' ∧ t = textOf chunks ++ [c])
        (chunks ++ more) (cells ++ cells') rest' ∧
      Cell.printed cells' = out := by
  have hwords := ne_nil_of_mem_wordsOf hspaced
  -- the attributes in print are the words of the tag, sewn to the head and to each other
  have hsewn : Tag.Sewn head (wordsOf more) out := by
    rcases Tag.sewn_of_spread hwords hspread with
      ⟨hnil, rfl⟩ | ⟨w, ws, pad, more', hws, rfl, hpad, hne, h⟩
    · rw [hnil]
      exact .nil head
    · rw [hws]
      exact .cons hpad (fun h => absurd h hne) h
  by_cases hgap : GapFirst more
  · -- there is white space behind the head
    obtain ⟨cells', rest', htypeset, hprinted⟩ := h.sewn hhead hends hspaced (fun _ => hgap) hsewn
    refine ⟨cells', rest', htypeset.congr fun t => or_iff_left ?_, hprinted⟩
    rintro ⟨c, s, more', rfl, -⟩
    exact hgap _ rfl
  · -- the first attribute follows the head directly, so the white space makes a cut
    obtain ⟨w, more', rfl⟩ : ∃ w more', more = .word w :: more' := by
      rw [GapFirst, not_forall] at hgap
      obtain ⟨w, hw⟩ := hgap
      obtain ⟨more', rfl⟩ := List.head?_eq_some_iff.mp (not_not.mp hw)
      exact ⟨w, more', rfl⟩
    obtain ⟨c, s, rfl⟩ := List.exists_cons_of_ne_nil hspaced.1
    rcases Tag.sewn_of_spread hwords hspread with
      ⟨hnil, -⟩ | ⟨w, ws, pad, out', hws, rfl, hpad, hne, hmore⟩
    · cases hnil
    obtain ⟨rfl, rfl⟩ := List.cons.inj hws
    -- the first word is set behind the cut, and the others are sewn to it
    have hcut := h.cutWord (c := c) (s := s) hpad hne
    have hends' : c :: s <:+ Cell.source (cells ++ [⟨[], pad, c :: s⟩]) := by
      refine ⟨Cell.source cells, ?_⟩
      simp
    obtain ⟨cells', rest', htypeset, hprinted⟩ :=
      hcut.sewn (List.cons_ne_nil c s) hends' hspaced.2.2 (fun _ => hspaced.2.1) hmore
    rw [List.append_assoc, List.append_assoc, List.singleton_append, List.singleton_append]
      at htypeset
    refine ⟨_, rest', htypeset.congr fun t => or_congr_right ?_, by simp [hprinted]⟩
    constructor
    · -- there is one such cut
      rintro ⟨c', s', more'', heq, rfl⟩
      obtain ⟨hword, -⟩ := List.cons.inj heq
      obtain ⟨rfl, -⟩ := List.cons.inj (Chunk.word.inj hword)
      rfl
    · rintro rfl
      exact ⟨c, s, more', rfl, rfl⟩

/-! ## Tags in print -/

namespace StartTag

namespace Parts

open Tag (Spread)

/-- The slash of a tag that closes itself. -/
def slash (t : Parts) : Text :=
  if t.selfClosing then ['/'] else []

/-- A tag in print: white space stands before every attribute, and at the end only
if the tag closes itself or is wide. -/
structure Renders (t : Parts) (wide : Prop) (out : Text) : Prop where
  eq : ∃ attrs pad : Text, Spread t.attributes attrs ∧ pad.Blank ∧
    (pad ≠ [] ↔ t.selfClosing = true ∨ wide) ∧ out = t.head ++ attrs ++ pad ++ t.slash ++ ['>']

/-- Whether a tag is wide may be told in other words. -/
theorem Renders.congr {t : Parts} {wide wide' : Prop} {out : Text} (h : Renders t wide out)
    (hwide : wide ↔ wide') : Renders t wide' out where
  eq := by
    obtain ⟨attrs, pad, hspread, hblank, hpad, hout⟩ := h.eq
    exact ⟨attrs, pad, hspread, hblank, hpad.trans (or_congr_right hwide), hout⟩

/-- Attributes with a space before each are spread. -/
theorem spread_join {attrs : List Text} (h : attrs ≠ []) :
    Spread attrs (' ' :: Text.join [' '] attrs) := by
  induction attrs with
  | nil => exact absurd rfl h
  | cons a attrs ih =>
    have hspace : Text.Blank [' '] := by decide
    cases attrs with
    | nil =>
      have hone := Spread.cons hspace (List.cons_ne_nil ' ' []) a .nil
      simpa [Text.join] using hone
    | cons b attrs =>
      have hmore := Spread.cons hspace (List.cons_ne_nil ' ' []) a (ih (List.cons_ne_nil b attrs))
      simpa [Text.join] using hmore

/-- So are attributes on lines of their own. -/
theorem spread_stacked {pad : Text} (hpad : pad.Blank) (attrs : List Text) :
    Spread attrs (stacked pad attrs) := by
  have hline : Text.Blank ('\n' :: pad) := Text.blank_cons.mpr ⟨by decide, hpad⟩
  induction attrs with
  | nil => exact .nil
  | cons a attrs ih => exact .cons hline (List.cons_ne_nil _ pad) a ih

/-- So are attributes that fill the lines. -/
theorem spread_filled (limit : Int) {pad : Text} (hpad : pad.Blank) (width : Nat)
    (attrs : List Text) : Spread attrs (filled limit pad width attrs) := by
  have hline : Text.Blank ('\n' :: pad) := Text.blank_cons.mpr ⟨by decide, hpad⟩
  induction attrs generalizing width with
  | nil => exact .nil
  | cons a attrs ih =>
    rw [filled]
    split
    · exact .cons hline (List.cons_ne_nil _ pad) a (ih _)
    · have hspace : Text.Blank [' '] := by decide
      exact .cons hspace (List.cons_ne_nil ' ' []) a (ih _)

/-- A tag that ends on the line of its last attribute. -/
theorem renders_of_spread {t : Parts} {attrs : Text} (h : Spread t.attributes attrs) :
    Renders t False (t.head ++ attrs ++ t.close) where
  eq := by
    cases hself : t.selfClosing with
    | true => exact ⟨attrs, [' '], h, by decide, by simp, by simp [close, slash, hself]⟩
    | false => exact ⟨attrs, [], h, Text.blank_nil, by simp, by simp [close, slash, hself]⟩

/-- A tag on one line is rendered. -/
theorem renders_single (t : Parts) : Renders t False t.single := by
  unfold single
  split
  · rename_i hnil
    have hspread : Spread t.attributes [] := by
      rw [hnil]
      exact .nil
    simpa using renders_of_spread hspread
  · rename_i attrs hne
    exact renders_of_spread (spread_join hne)

/-- So is a tag whose attributes wrap where the line is full. -/
theorem renders_wrapped (t : Parts) (limit : Int) {pad : Text} (hpad : pad.Blank) (column : Nat) :
    Renders t False (t.wrapped limit pad column) := by
  unfold wrapped
  split
  · exact renders_single t
  · rename_i first rest hattrs
    have hspace : Text.Blank [' '] := by decide
    have hspread := Spread.cons hspace (List.cons_ne_nil ' ' []) first
      (spread_filled limit hpad (column + (t.head ++ ' ' :: first).length) rest)
    rw [← hattrs] at hspread
    simpa using renders_of_spread hspread

/-- So is a tag whose attributes have lines of their own, but for the first one. -/
theorem renders_forced (t : Parts) {pad : Text} (hpad : pad.Blank) :
    Renders t False (t.forced pad) := by
  unfold forced
  split
  · rename_i first rest hattrs
    have hspace : Text.Blank [' '] := by decide
    have hspread := Spread.cons hspace (List.cons_ne_nil ' ' []) first (spread_stacked hpad rest)
    rw [← hattrs] at hspread
    simpa using renders_of_spread hspread
  · exact renders_single t

/-- A tag whose attributes and bracket have lines of their own is rendered wide. -/
theorem renders_expanded (t : Parts) {pad endPad : Text} (hpad : pad.Blank)
    (hend : endPad.Blank) : Renders t True (t.expanded pad endPad) where
  eq := by
    have hline : Text.Blank ('\n' :: endPad) := Text.blank_cons.mpr ⟨by decide, hend⟩
    have hclose : Text.trimLeft t.close = t.slash ++ ['>'] := by
      unfold close slash
      split <;> decide
    refine ⟨stacked pad t.attributes, '\n' :: endPad, spread_stacked hpad _, hline, by simp, ?_⟩
    rw [expanded, hclose, List.append_assoc _ t.slash]

end Parts

/-! ## The chunks of a start tag -/

/-- The tag is printed as it stands. -/
def isKept (o : MarkupOptions) (tag : StartTag) : Bool :=
  tag.verbatim || decide (AttributeWrap.ofName o.wrapAttributes = .preserve)

/-- The bracket of the tag gets a line of its own. -/
def isExpanded (o : MarkupOptions) (tag : StartTag) : Bool :=
  decide (AttributeWrap.ofName o.wrapAttributes = .forceExpand ∧
    2 ≤ (parts o.templates tag.raw).attributes.length)

/-- A tag that is kept is printed as it stands. -/
theorem render_of_isKept {o : MarkupOptions} {tag : StartTag} (h : tag.isKept o = true)
    (depth : Int) (column : Nat) : tag.render o depth column = tag.raw := by
  rw [isKept, Bool.or_eq_true, decide_eq_true_eq] at h
  exact if_pos (by simpa using h)

/-- **However a tag is printed, it is rendered**, wide exactly if it is expanded. -/
theorem renders_render {o : MarkupOptions} (ho : o.IndentsBlank) {tag : StartTag}
    (h : tag.isKept o = false) (depth : Int) (column : Nat) :
    (parts o.templates tag.raw).Renders (tag.isExpanded o = true) (tag.render o depth column) := by
  have hkept : ¬ (tag.verbatim = true ∨ AttributeWrap.ofName o.wrapAttributes = .preserve) := by
    simpa [isKept] using h
  have hindent := ho.indent (depth + 1)
  have haligned : ∀ n, Text.Blank (List.replicate n ' ') := Text.blank_replicate (by decide)
  rw [isExpanded, decide_eq_true_eq]
  unfold render
  dsimp only
  rw [if_neg (by simpa using hkept)]
  generalize AttributeWrap.ofName o.wrapAttributes = wrap
  generalize parts o.templates tag.raw = t
  split
  · -- with fewer than two attributes nothing is forced
    rename_i hfew
    refine t.renders_single.congr (iff_of_false not_false ?_)
    rintro ⟨-, hmany⟩
    omega
  · rename_i hfew
    split
    · -- only here the bracket gets its own line
      have hmany : 2 ≤ t.attributes.length := by
        by_contra hlt
        exact hfew ⟨by omega, .inr (.inr rfl)⟩
      exact (t.renders_expanded hindent (ho.indent depth)).congr (by simp [hmany])
    · exact (t.renders_forced hindent).congr (by simp)
    · exact (t.renders_forced (haligned _)).congr (by simp)
    · split
      · exact t.renders_single.congr (by simp)
      · exact (t.renders_wrapped _ (haligned _) _).congr (by simp)
    · rename_i hexpand _ _ _
      have hnot : False ↔ wrap = .forceExpand ∧ 2 ≤ t.attributes.length :=
        iff_of_false not_false fun hwide => hexpand hwide.1
      split
      · exact t.renders_single.congr hnot
      · exact (t.renders_wrapped _ hindent _).congr hnot

/-- A tag in print has its opening bracket. -/
theorem not_blank_render {o : MarkupOptions} (ho : o.IndentsBlank) {tag : StartTag} {rest : Text}
    (hraw : tag.raw = '<' :: rest) (depth : Int) (column : Nat) :
    ¬ (tag.render o depth column).Blank := by
  intro hblank
  cases hkept : tag.isKept o with
  | true =>
    rw [render_of_isKept hkept, hraw, Text.blank_cons] at hblank
    exact absurd hblank.1 (by decide)
  | false =>
    obtain ⟨attrs, pad, -, -, -, hrender⟩ := (renders_render ho hkept depth column).eq
    rw [hrender, Text.blank_append] at hblank
    exact absurd hblank.2 (by decide)

/-- The part of a start tag that holds its attributes. -/
def attributeText (raw : Text) : Text :=
  let trimmed := Text.trimRight (inner raw)
  if Text.endsWith ['/'] trimmed then trimmed.dropLast else inner raw

/-- What stands behind the attributes of a tag, up to its bracket. -/
def tail (raw : Text) : List Chunk :=
  if Text.endsWith ['/'] (Text.trimRight (inner raw)) then
    [.word ['/'], .gap (Text.trailing (inner raw))]
  else []

/-- The start tag in chunks. A bracket is supplied if it has none. -/
def chunks (o : MarkupOptions) (tag : StartTag) : List Chunk :=
  if tag.isKept o then Chunk.solid tag.raw
  else
    .word ('<' :: Tag.writtenName tag.raw) ::
      (Tag.chunks o.templates .plain (attributeText tag.raw) ++ tail tag.raw ++ [.word ['>']])

/-- The bracket that is supplied to a tag without one. -/
def supplied (o : MarkupOptions) (tag : StartTag) : Text :=
  if tag.isKept o || Text.endsWith ['>'] tag.raw then [] else ['>']

/-- The front parts of the tag before whose last character white space is put in:
the name and a letter directly behind it, and all up to the slash, or to the bracket
if that gets a line of its own. -/
def splits (o : MarkupOptions) (tag : StartTag) : List Text :=
  if tag.isKept o then []
  else
    let t := parts o.templates tag.raw
    let front := t.head ++ attributeText tag.raw
    ((attributeText tag.raw).take 1).filterMap
        (fun c => if isBlank c then none else some (t.head ++ [c])) ++
      if t.selfClosing then [front ++ ['/']]
      else if tag.isExpanded o then [front ++ ['>']]
      else []

theorem parts_eq (templates : Bool) (raw : Text) :
    parts templates raw = ⟨'<' :: Tag.writtenName raw,
      Tag.attributes templates (attributeText raw),
      Text.endsWith ['/'] (Text.trimRight (inner raw))⟩ := rfl

theorem tail_eq (templates : Bool) (raw : Text) :
    tail raw = if (parts templates raw).selfClosing then
      [.word ['/'], .gap (Text.trailing (inner raw))] else [] := rfl

/-- Attributes and tail are all that stands between the name and the bracket. -/
theorem attributeText_append_tail (raw : Text) :
    attributeText raw ++ textOf (tail raw) = inner raw := by
  have htrim := Text.trimRight_append_trailing (inner raw)
  unfold attributeText tail
  dsimp only
  split
  · rename_i hslash
    obtain ⟨front, hfront⟩ := List.getLast?_eq_some_iff.mp (Tag.endsWith_singleton.mp hslash)
    rw [hfront] at htrim ⊢
    simpa [text] using htrim
  · simp

/-- The name of a tag is what stands behind its opening bracket. -/
theorem writtenName_eq {raw rest : Text} (hraw : raw = '<' :: rest) :
    Tag.writtenName raw = rest.takeWhile Tag.inName := by
  rw [Tag.writtenName, hraw]
  rfl

/-- What stands inside of a tag, behind its name. -/
theorem inner_eq {raw rest : Text} (hraw : raw = '<' :: rest) :
    inner raw = if Text.endsWith ['>'] (rest.dropWhile Tag.inName) then
      (rest.dropWhile Tag.inName).dropLast else rest.dropWhile Tag.inName := by
  have hcut : raw.drop (1 + (Tag.writtenName raw).length) = rest.dropWhile Tag.inName := by
    rw [writtenName_eq hraw, hraw, Nat.add_comm, List.drop_succ_cons]
    exact Text.drop_length_takeWhile ..
  rw [inner, hcut]

/-- A start tag is its name, what stands inside, and the bracket. -/
theorem head_append_inner {raw rest : Text} (hraw : raw = '<' :: rest) :
    '<' :: Tag.writtenName raw ++ inner raw ++ ['>'] =
      raw ++ if Text.endsWith ['>'] raw then [] else ['>'] := by
  have hname := writtenName_eq hraw
  have hwhole : raw = '<' :: Tag.writtenName raw ++ rest.dropWhile Tag.inName := by
    rw [hname, List.cons_append, List.takeWhile_append_dropWhile, hraw]
  -- the bracket is not part of the name
  have hclose : raw.getLast? = some '>' ↔ (rest.dropWhile Tag.inName).getLast? = some '>' := by
    cases hdrop : rest.dropWhile Tag.inName with
    | nil =>
      rw [hdrop, List.append_nil] at hwhole
      refine iff_of_false (fun hlast => ?_) (by simp)
      rw [hwhole] at hlast
      rcases List.mem_cons.mp (List.mem_of_getLast? hlast) with h | h
      · exact absurd h (by decide)
      · rw [hname] at h
        exact absurd (List.mem_takeWhile_imp h) (by decide)
    | cons c cs =>
      rw [hdrop] at hwhole
      rw [hwhole, List.getLast?_append_of_ne_nil _ (List.cons_ne_nil c cs)]
  rw [inner_eq hraw]
  by_cases hgt : (rest.dropWhile Tag.inName).getLast? = some '>'
  · rw [if_pos (Tag.endsWith_singleton.mpr hgt),
      if_pos (Tag.endsWith_singleton.mpr (hclose.mpr hgt))]
    obtain ⟨front, hfront⟩ := List.getLast?_eq_some_iff.mp hgt
    rw [hfront] at hwhole ⊢
    rw [List.dropLast_concat, List.append_nil, List.append_assoc, ← hwhole]
  · have hgt' : ¬ raw.getLast? = some '>' := fun h => hgt (hclose.mp h)
    rw [if_neg fun h => hgt (Tag.endsWith_singleton.mp h),
      if_neg fun h => hgt' (Tag.endsWith_singleton.mp h), ← hwhole]

/-- **The chunks are the tag**, with the bracket that is supplied. -/
theorem textOf_chunks (o : MarkupOptions) {tag : StartTag} {rest : Text}
    (hraw : tag.raw = '<' :: rest) : textOf (tag.chunks o) = tag.raw ++ tag.supplied o := by
  unfold chunks supplied
  split
  · rename_i hkept
    rw [hkept, textOf_solid, Bool.true_or, if_pos rfl, List.append_nil]
  · rename_i hkept
    rw [Bool.not_eq_true] at hkept
    rw [hkept, Bool.false_or, ← head_append_inner hraw, ← attributeText_append_tail]
    simp [text, Tag.textOf_chunks]

/-! ## Typesetting a start tag -/

/-- The cuts so far, and those of a tag behind a text. -/
def withSplits (o : MarkupOptions) (tag : StartTag) (cut : Text → Prop) (before : Text) (t : Text) :
    Prop :=
  cut t ∨ ∃ q ∈ tag.splits o, t = before ++ q

/-- The splits of a tag that is not kept, one by one. -/
theorem mem_splits {o : MarkupOptions} {tag : StartTag} (h : tag.isKept o = false) {q : Text} :
    q ∈ tag.splits o ↔
      (∃ c, (attributeText tag.raw).head? = some c ∧ isBlank c = false ∧
        q = (parts o.templates tag.raw).head ++ [c]) ∨
      ((parts o.templates tag.raw).selfClosing = true ∧
        q = (parts o.templates tag.raw).head ++ attributeText tag.raw ++ ['/']) ∨
      ((parts o.templates tag.raw).selfClosing = false ∧ tag.isExpanded o = true ∧
        q = (parts o.templates tag.raw).head ++ attributeText tag.raw ++ ['>']) := by
  rw [splits, h, if_neg Bool.false_ne_true]
  dsimp only
  rw [List.mem_append]
  refine or_congr ?_ ?_
  · cases attributeText tag.raw with
    | nil => simp
    | cons c s =>
      cases hc : isBlank c with
      | true => simp [hc]
      | false => simp [hc]
  · cases (parts o.templates tag.raw).selfClosing with
    | true => simp
    | false => cases tag.isExpanded o <;> simp

/-- What stands directly behind the name of a tag ends the name. -/
theorem inName_of_head? {raw rest : Text} (hraw : raw = '<' :: rest) {c : Char}
    (hc : (attributeText raw).head? = some c) : Tag.inName c = false := by
  have hfront : attributeText raw <+: rest.dropWhile Tag.inName := by
    refine (List.prefix_append _ (textOf (tail raw))).trans ?_
    rw [attributeText_append_tail, inner_eq hraw]
    split
    · exact List.dropLast_prefix _
    · exact List.prefix_refl _
  obtain ⟨more, hmore⟩ := List.head?_eq_some_iff.mp hc
  obtain ⟨after, hafter⟩ := hfront
  rw [hmore] at hafter
  have hhead := List.head_dropWhile_not Tag.inName (l := rest) (by rw [← hafter]; simp)
  simpa [← hafter] using hhead

/-- The splits of a tag are front parts of it. -/
theorem prefix_of_mem_splits {o : MarkupOptions} {tag : StartTag} {rest : Text}
    (hraw : tag.raw = '<' :: rest) {q : Text} (hq : q ∈ tag.splits o) :
    q <+: tag.raw ++ tag.supplied o := by
  cases hkept : tag.isKept o with
  | true =>
    rw [splits, if_pos hkept] at hq
    cases hq
  | false =>
    -- the tag as its head, its attributes and its tail
    have hwhole : tag.raw ++ tag.supplied o = (parts o.templates tag.raw).head ++
        (attributeText tag.raw ++ (textOf (tail tag.raw) ++ ['>'])) := by
      rw [supplied, hkept, Bool.false_or, ← head_append_inner hraw, ← attributeText_append_tail]
      simp [parts_eq]
    rw [hwhole]
    rcases (mem_splits hkept).mp hq with ⟨c, hc, -, rfl⟩ | ⟨hself, rfl⟩ | ⟨hself, -, rfl⟩
    · obtain ⟨more, hmore⟩ := List.head?_eq_some_iff.mp hc
      rw [hmore]
      exact ⟨more ++ (textOf (tail tag.raw) ++ ['>']), by simp⟩
    · rw [tail_eq o.templates, if_pos hself]
      exact ⟨Text.trailing (inner tag.raw) ++ ['>'], by simp [text]⟩
    · rw [tail_eq o.templates, if_neg (by simp [hself])]
      exact ⟨[], by simp⟩

/-- White space is put in before slashes and brackets. -/
theorem getLast?_of_mem_splits {o : MarkupOptions} {tag : StartTag} {rest : Text}
    (hraw : tag.raw = '<' :: rest) {q : Text} (hq : q ∈ tag.splits o) :
    q.head? = some '<' ∧ (q.getLast? = some '/' ∨ q.getLast? = some '>') := by
  cases hkept : tag.isKept o with
  | true =>
    rw [splits, if_pos hkept] at hq
    cases hq
  | false =>
    rcases (mem_splits hkept).mp hq with ⟨c, hc, hblank, rfl⟩ | ⟨-, rfl⟩ | ⟨-, -, rfl⟩
    · -- only a blank, a slash or a bracket ends a name
      have hname := inName_of_head? hraw hc
      rw [Tag.inName, Bool.not_eq_false', Bool.or_eq_true, Bool.or_eq_true, hblank, beq_iff_eq,
        beq_iff_eq] at hname
      refine ⟨rfl, ?_⟩
      rw [List.getLast?_concat]
      rcases hname with (h | rfl) | rfl
      · exact Bool.noConfusion h
      · exact .inl rfl
      · exact .inr rfl
    · exact ⟨rfl, .inl List.getLast?_concat⟩
    · exact ⟨rfl, .inr List.getLast?_concat⟩

/-- The cuts behind a tag that is not kept, one by one. -/
theorem withSplits_iff {o : MarkupOptions} {tag : StartTag} (h : tag.isKept o = false)
    {cut : Text → Prop} {before t : Text} :
    tag.withSplits o cut before t ↔
      (cut t ∨ ∃ c, (attributeText tag.raw).head? = some c ∧ isBlank c = false ∧
        t = before ++ ((parts o.templates tag.raw).head ++ [c])) ∨
      ((parts o.templates tag.raw).selfClosing = true ∧
        t = before ++ ((parts o.templates tag.raw).head ++ attributeText tag.raw) ++ ['/']) ∨
      ((parts o.templates tag.raw).selfClosing = false ∧ tag.isExpanded o = true ∧
        t = before ++ ((parts o.templates tag.raw).head ++ attributeText tag.raw) ++ ['>']) := by
  rw [withSplits, or_assoc]
  refine or_congr_right ?_
  simp only [mem_splits h]
  constructor
  · rintro ⟨q, ⟨c, hc, hblank, rfl⟩ | ⟨hself, rfl⟩ | ⟨hself, hexp, rfl⟩, rfl⟩
    · exact .inl ⟨c, hc, hblank, rfl⟩
    · exact .inr (.inl ⟨hself, (List.append_assoc ..).symm⟩)
    · exact .inr (.inr ⟨hself, hexp, (List.append_assoc ..).symm⟩)
  · rintro (⟨c, hc, hblank, rfl⟩ | ⟨hself, rfl⟩ | ⟨hself, hexp, rfl⟩)
    · exact ⟨_, .inl ⟨c, hc, hblank, rfl⟩, rfl⟩
    · exact ⟨_, .inr (.inl ⟨hself, rfl⟩), List.append_assoc ..⟩
    · exact ⟨_, .inr (.inr ⟨hself, hexp, rfl⟩), List.append_assoc ..⟩

variable {cut : Text → Prop} {chunks : List Chunk} {cells : List Cell} {rest w : Text}

/-- A tag that is kept is typeset without a split. -/
theorem typeset_kept {o : MarkupOptions} {tag : StartTag} (hkept : tag.isKept o = true)
    {more : Text} (hraw : tag.raw = '<' :: more) (h : Typeset cut chunks cells rest)
    (hw : Typeset.Leads cut chunks cells rest w '<') :
    ∃ cells', Typeset (tag.withSplits o cut (textOf chunks)) (chunks ++ tag.chunks o)
        (cells ++ cells') (Text.trailing tag.raw) ∧
      Cell.printed cells' = w ++ Text.trimRight tag.raw := by
  have hhead : (Text.trimRight tag.raw).head? = some '<' :=
    Text.head?_trimRight (by decide) (by rw [hraw, List.head?_cons])
  obtain ⟨x, hsolid, hprinted⟩ := h.solid hw hhead
  refine ⟨[x], ?_, hprinted⟩
  rw [StartTag.chunks, if_pos hkept]
  refine hsolid.congr fun t => or_iff_left ?_
  rintro ⟨q, hq, -⟩
  rw [splits, if_pos hkept] at hq
  cases hq

/-- The words of a tag up to its slash or its bracket. -/
theorem typeset_front (o : MarkupOptions) (tag : StartTag) {attrs : Text}
    (hspread : Tag.Spread (parts o.templates tag.raw).attributes attrs)
    (h : Typeset cut chunks cells rest) (hw : Typeset.Leads cut chunks cells rest w '<') :
    ∃ cells' rest', Typeset
        (fun t => cut t ∨ ∃ c, (attributeText tag.raw).head? = some c ∧ isBlank c = false ∧
          t = textOf chunks ++ ((parts o.templates tag.raw).head ++ [c]))
        (chunks ++ .word (parts o.templates tag.raw).head ::
          Tag.chunks o.templates .plain (attributeText tag.raw))
        (cells ++ cells') rest' ∧
      Cell.printed cells' = w ++ (parts o.templates tag.raw).head ++ attrs := by
  have hhead := h.lead hw (Tag.writtenName tag.raw)
  have hends : (parts o.templates tag.raw).head <:+
      Cell.source (cells ++ [⟨rest, w, '<' :: Tag.writtenName tag.raw⟩]) := by
    refine ⟨Cell.source cells ++ rest, ?_⟩
    simp [parts_eq]
  -- the attributes are the words of the text between head and tail, joined
  have hwords : (parts o.templates tag.raw).attributes =
      Tag.rejoin (wordsOf (Tag.chunks o.templates .plain (attributeText tag.raw))) :=
    Tag.attributes_eq ..
  rw [hwords] at hspread
  obtain ⟨cells', rest', htypeset, hprinted⟩ :=
    hhead.attributes (List.cons_ne_nil _ _) hends (Tag.spaced_chunks ..) hspread
  rw [List.append_assoc, List.append_assoc, List.singleton_append, List.singleton_append]
    at htypeset
  refine ⟨_, rest', htypeset.congr fun t => or_congr_right ?_, ?_⟩
  · refine exists_congr fun c => ?_
    rw [← and_assoc, ← @Tag.chunks_eq_word_iff o.templates]
    simp [parts_eq, text]
  · simp [hprinted, parts_eq]

/-- **A start tag is typeset with white space at its splits.** -/
theorem exists_typeset {o : MarkupOptions} (ho : o.IndentsBlank) {tag : StartTag} {more : Text}
    (hraw : tag.raw = '<' :: more) (h : Typeset cut chunks cells rest)
    (hw : Typeset.Leads cut chunks cells rest w '<') (depth : Int) (column : Nat) :
    ∃ cells', Typeset (tag.withSplits o cut (textOf chunks)) (chunks ++ tag.chunks o)
        (cells ++ cells') (Text.trailing (tag.render o depth column)) ∧
      Cell.printed cells' = w ++ Text.trimRight (tag.render o depth column) := by
  cases hkept : tag.isKept o with
  | true =>
    rw [render_of_isKept hkept]
    exact typeset_kept hkept hraw h hw
  | false =>
    obtain ⟨attrs, pad, hspread, hblank, hpad, hrender⟩ := (renders_render ho hkept depth column).eq
    obtain ⟨cells', rest', hfront, hprinted⟩ := typeset_front o tag hspread h hw
    -- a tag in print ends with its bracket
    have htight : Text.Tight (tag.render o depth column) := by
      rw [hrender]
      exact Text.tight_concat (by decide) _
    have htrailing : Text.trailing (tag.render o depth column) = [] :=
      (Text.eq_trimRight htight Text.blank_nil (List.append_nil _).symm).2.symm
    rw [htight, htrailing]
    have hchunks : tag.chunks o = .word (parts o.templates tag.raw).head ::
        (Tag.chunks o.templates .plain (attributeText tag.raw) ++ tail tag.raw ++
          [.word ['>']]) := by
      rw [StartTag.chunks, hkept, if_neg Bool.false_ne_true]
      rfl
    have hbefore : textOf (chunks ++ .word (parts o.templates tag.raw).head ::
        Tag.chunks o.templates .plain (attributeText tag.raw)) =
          textOf chunks ++ ((parts o.templates tag.raw).head ++ attributeText tag.raw) := by
      simp [text, Tag.textOf_chunks]
    cases hself : (parts o.templates tag.raw).selfClosing with
    | true =>
      -- white space before the slash, none between it and the bracket
      have hne : pad ≠ [] := hpad.mpr (.inl hself)
      have hslash := (hfront.cutWord (c := '/') (s := []) hblank hne).gap
        (Text.blank_trailing (inner tag.raw))
      have hbracket := hslash.bracket
      rw [hchunks, tail_eq o.templates, if_pos hself]
      simp only [List.append_assoc, List.cons_append, List.nil_append] at hbracket ⊢
      refine ⟨_, hbracket.congr fun t => ?_, ?_⟩
      · rw [withSplits_iff hkept, hbefore]
        simp [hself]
      · rw [Cell.printed_append, hprinted, hrender]
        simp [Parts.slash, hself]
    | false =>
      have hslash : (parts o.templates tag.raw).slash = [] := by
        rw [Parts.slash, hself]
        rfl
      rw [hchunks, tail_eq o.templates, if_neg (by simp [hself])]
      simp only [List.append_nil]
      cases hexp : tag.isExpanded o with
      | true =>
        -- the bracket on a line of its own
        have hne : pad ≠ [] := hpad.mpr (.inr hexp)
        have hbracket := hfront.cutWord (c := '>') (s := []) hblank hne
        simp only [List.append_assoc, List.cons_append] at hbracket
        refine ⟨_, hbracket.congr fun t => ?_, ?_⟩
        · rw [withSplits_iff hkept, hbefore]
          simp [hself, hexp]
        · rw [Cell.printed_append, hprinted, hrender, hslash]
          simp
      | false =>
        -- there is no white space before the bracket
        obtain rfl : pad = [] := by
          by_contra hne
          rcases hpad.mp hne with h | h
          · exact Bool.noConfusion (hself.symm.trans h)
          · exact Bool.noConfusion (hexp.symm.trans h)
        have hbracket := hfront.bracket
        simp only [List.append_assoc, List.cons_append] at hbracket
        refine ⟨_, hbracket.congr fun t => ?_, ?_⟩
        · rw [withSplits_iff hkept]
          simp [hself, hexp]
        · rw [Cell.printed_append, hprinted, hrender, hslash]
          simp

end StartTag

end TemplateTidy
