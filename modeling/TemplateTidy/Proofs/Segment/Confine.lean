import TemplateTidy.Proofs.Php.Seam
import TemplateTidy.Proofs.Segment.Outline

/-!
# Code cannot break out of its disguise

A segment is escaped token by token, so what matters is what lies across the
seams of its tokens. Lexemes of different classes have no seam that divides
anything forbidden; on the way to tokens the seams stay what they are.

* Inside a segment a lexeme becomes a piece of the kind of its class. The one
  piece that is cut, behind the equals sign of an opening tag, keeps its end
  (`Reading.Keeps`).
* Pieces of one kind are joined, so a seam that remains is one of different kinds.

Hence no seam inside a segment divides anything forbidden
(`Outline.whole_of_mem_segments`), and what encoding keeps out of every token is
kept out of the segment.

Main result: `disguise_confines`.
-/

namespace TemplateTidy

open Token (Kind)

/-- The token lies in a segment and is no tag of it. -/
def Token.Kind.isInner : Kind → Bool
  | .code | .comment | .other => true
  | _ => false

/-- Outside of a segment stands nothing that lies inside one. -/
theorem Token.Kind.isInner_of_advance {κ : Kind} {next : Bool} (h : advance false κ = some next) :
    κ.isInner = false := by
  cases κ <;> first | rfl | cases h

/-- Neighbours of one kind in a segment are one token. -/
theorem Token.Kind.isMergeable_of_isInner {κ : Kind} (h : κ.isInner = true) :
    κ.isMergeable = true := by
  cases κ <;> first | rfl | cases h

/-- Something forbidden may lie across the seam of two pieces in a segment only if they
are of one kind. -/
def Piece.Seam (p q : Piece) : Prop :=
  p.kind.isInner = true → q.kind.isInner = true → Text.Straddles p.text q.text → p.kind = q.kind

/-! ## The reader of lexemes -/

namespace Reading

/-- The pieces of a step: none of their own seams matters, and what lies in a segment at
the end is of the class of the lexeme and ends like it. -/
structure Keeps (x : Lexeme) (ps : List Piece) : Prop where
  chain : List.IsChain Piece.Seam ps
  last : ∀ p ∈ ps.getLast?, p.kind.isInner = true →
    p.kind = kindInside x.kind ∧ p.text.getLast? = x.text.getLast?

/-- A piece outside of segments has no seam that matters. -/
theorem Keeps.of_outer (x : Lexeme) {p : Piece} (hp : p.kind.isInner = false) : Keeps x [p] where
  chain := List.isChain_singleton p
  last := by
    intro q hq hinner
    obtain rfl : p = q := Option.some.inj hq
    rw [hp] at hinner
    cases hinner

/-- Such a piece may be put in front of a step. -/
theorem Keeps.after {x : Lexeme} {p : Piece} (hp : p.kind.isInner = false)
    {step : List Piece × Reading} (h : Keeps x step.1) : Keeps x (after p step).1 where
  chain := by
    refine List.isChain_cons.mpr ⟨fun q _ hinner => ?_, h.chain⟩
    rw [hp] at hinner
    cases hinner
  last := by
    intro q hq
    by_cases hnil : step.1 = []
    · rw [Reading.after, hnil] at hq
      exact (Keeps.of_outer x hp).last q hq
    · rw [Reading.after, List.getLast?_cons_of_ne_nil hnil] at hq
      exact h.last q hq

/-- A step inside a segment keeps the class and the end of its lexeme. -/
theorem keeps_stepInside {x y : Lexeme} (hkind : x.kind = y.kind)
    (htext : x.text.getLast? = y.text.getLast?) : Keeps y (stepInside x).1 := by
  unfold stepInside
  split
  · exact Keeps.of_outer y rfl
  · refine ⟨List.isChain_singleton _, fun p hp _ => ?_⟩
    obtain rfl := Option.some.inj hp
    exact ⟨congrArg kindInside hkind, htext⟩

/-- One lexeme. -/
theorem keeps_step (shortTags : Bool) (r : Reading) (x : Lexeme) :
    Keeps x (r.step shortTags x).1 := by
  cases r with
  | outside =>
    rw [step, stepOutside]
    split
    · split
      · -- the bare opener waits for what follows and yields nothing yet
        refine ⟨List.isChain_nil, ?_⟩
        intro p hp
        cases hp
      · exact Keeps.of_outer x rfl
    · exact Keeps.of_outer x rfl
  | pending opener =>
    rw [step, stepPending]
    split
    · exact Keeps.of_outer x rfl
    · -- the equals sign is cut off the front
      rename_i more hmore htext
      refine Keeps.after rfl (keeps_stepInside rfl ?_)
      rw [htext, List.getLast?_cons_of_ne_nil hmore]
    · split
      · exact Keeps.after rfl (keeps_stepInside rfl rfl)
      · exact Keeps.after rfl (Keeps.of_outer x rfl)
  | literal => exact Keeps.of_outer x rfl
  | inside => exact keeps_stepInside rfl rfl

/-- A lexeme that is not empty is read in one step. -/
theorem pieces_cons (shortTags : Bool) (r : Reading) {x : Lexeme} (hx : x.text ≠ [])
    (xs : List Lexeme) : pieces shortTags r (x :: xs) =
      (r.step shortTags x).1 ++ pieces shortTags (r.step shortTags x).2 xs := by
  rw [pieces, if_neg (by simpa using hx)]

/-- Outside of a segment the next piece does not lie in one. -/
theorem isInner_head_of_outside {shortTags : Bool} {r : Reading} (hr : r.isInside = false)
    {xs : List Lexeme} {q : Piece} (hq : q ∈ (pieces shortTags r xs).head?) :
    q.kind.isInner = false := by
  obtain ⟨inside, hrun⟩ := run_pieces shortTags r xs
  obtain ⟨rest, hrest⟩ := List.head?_eq_some_iff.mp hq
  rw [hrest, kinds, List.map_cons, Kind.run_cons, hr] at hrun
  obtain ⟨next, hnext, -⟩ := Option.bind_eq_some_iff.mp hrun
  exact Kind.isInner_of_advance hnext

/-- Inside a segment the next piece is the next lexeme. -/
theorem head_of_inside {shortTags : Bool} {xs : List Lexeme} (hne : ∀ x ∈ xs, x.text ≠ [])
    {q : Piece} (hq : q ∈ (pieces shortTags .inside xs).head?) :
    ∃ y ∈ xs.head?, q.text = y.text ∧ (q.kind.isInner = true → q.kind = kindInside y.kind) := by
  cases xs with
  | nil => cases hq
  | cons y ys =>
    refine ⟨y, rfl, ?_⟩
    rw [pieces_cons shortTags _ (hne y (List.mem_cons_self ..)), step, stepInside] at hq
    split at hq
    · obtain rfl := Option.some.inj hq
      refine ⟨rfl, ?_⟩
      intro hinner
      cases hinner
    · obtain rfl := Option.some.inj hq
      exact ⟨rfl, fun _ => rfl⟩

/-- All lexemes. -/
theorem isChain_pieces (shortTags : Bool) (r : Reading) {xs : List Lexeme}
    (hne : ∀ x ∈ xs, x.text ≠ []) (hxs : List.IsChain Lexeme.Seam xs) :
    List.IsChain Piece.Seam (pieces shortTags r xs) := by
  induction xs generalizing r with
  | nil =>
    cases r with
    | pending opener => exact List.isChain_singleton _
    | outside | literal | inside => exact List.isChain_nil
  | cons x xs ih =>
    obtain ⟨hx, hne'⟩ := List.forall_mem_cons.mp hne
    obtain ⟨hseam, hxs'⟩ := List.isChain_cons.mp hxs
    have hkeeps := keeps_step shortTags r x
    rw [pieces_cons shortTags r hx]
    refine List.isChain_append.mpr ⟨hkeeps.chain, ih _ hne' hxs', ?_⟩
    intro p hp q hq hpinner hqinner hstraddles
    cases hr : (r.step shortTags x).2.isInside with
    | false =>
      rw [isInner_head_of_outside hr hq] at hqinner
      cases hqinner
    | true =>
      -- both pieces are lexemes, up to what is cut off the front of the first
      have hinside : (r.step shortTags x).2 = .inside := by
        cases hr' : (r.step shortTags x).2 <;> rw [hr'] at hr <;> first | rfl | cases hr
      rw [hinside] at hq
      obtain ⟨hpkind, hplast⟩ := hkeeps.last p hp hpinner
      obtain ⟨y, hy, hqtext, hqkind⟩ := head_of_inside hne' hq
      obtain ⟨a, ha, b, hb, hab⟩ := hstraddles
      have hclass := hseam y hy ⟨a, hplast ▸ ha, b, hqtext ▸ hb, hab⟩
      rw [hpkind, hqkind hqinner, hclass]

end Reading

/-! ## Joined pieces -/

namespace Piece

/-- What a piece begins with after joining. -/
theorem head_cons {p q : Piece} {ps : List Piece} (h : q ∈ (cons p ps).head?) :
    q.kind = p.kind ∧ p.text <+: q.text := by
  cases ps with
  | nil =>
    obtain rfl := Option.some.inj h
    exact ⟨rfl, List.prefix_rfl⟩
  | cons r rest =>
    rw [cons] at h
    split at h
    · obtain rfl := Option.some.inj h
      exact ⟨rfl, List.prefix_append ..⟩
    · split at h
      · rename_i hclose
        obtain rfl := Option.some.inj h
        exact ⟨hclose.1.symm, List.prefix_append ..⟩
      · obtain rfl := Option.some.inj h
        exact ⟨rfl, List.prefix_rfl⟩

/-- No seam behind a piece outside of segments matters. -/
theorem Seam.of_outer_left {p q : Piece} (hp : p.kind.isInner = false) : p.Seam q := by
  intro hinner
  rw [hp] at hinner
  cases hinner

/-- Joining a piece to those behind it leaves their seams sound. -/
theorem isChain_seam_cons {p : Piece} {ps : List Piece} (hne : ∀ q ∈ ps, q.text ≠ [])
    (hp : ∀ q ∈ ps.head?, p.Seam q) (hps : List.IsChain Seam ps) :
    List.IsChain Seam (cons p ps) := by
  cases ps with
  | nil => exact List.isChain_singleton p
  | cons q rest =>
    obtain ⟨hq, hrest⟩ := List.isChain_cons.mp hps
    rw [cons]
    split
    · -- the joined piece ends like its second part
      rename_i hsame
      refine List.isChain_cons.mpr ⟨fun r hr => ?_, hrest⟩
      rintro hpinner hrinner ⟨a, ha, b, hb, hab⟩
      have hlast : a ∈ q.text.getLast? := by
        have hqne := hne q (List.mem_cons_self ..)
        rwa [List.getLast?_append_of_ne_nil _ hqne] at ha
      exact hsame.1.trans (hq r hr (hsame.1 ▸ hpinner) hrinner ⟨a, hlast, b, hb, hab⟩)
    · split
      · -- a closing tag takes a line break from the markup: neither is in code
        unfold absorb
        dsimp only
        split
        · exact List.isChain_cons.mpr ⟨fun r _ => .of_outer_left rfl, hrest⟩
        · refine List.isChain_cons_cons.mpr ⟨.of_outer_left rfl, ?_⟩
          exact List.isChain_cons.mpr ⟨fun r _ => .of_outer_left rfl, hrest⟩
      · exact List.isChain_cons_cons.mpr ⟨hp q rfl, hps⟩

/-- **Joined pieces have sound seams** if the pieces have. -/
theorem isChain_seam_join {ps : List Piece} (hne : ∀ p ∈ ps, p.text ≠ [])
    (hps : List.IsChain Seam ps) : List.IsChain Seam (join ps) := by
  induction ps with
  | nil => exact List.isChain_nil
  | cons p ps ih =>
    obtain ⟨-, hne'⟩ := List.forall_mem_cons.mp hne
    obtain ⟨hp, hps'⟩ := List.isChain_cons.mp hps
    refine isChain_seam_cons (join_nonempty hne') ?_ (ih hne' hps')
    intro q hq
    cases ps with
    | nil => cases hq
    | cons r rest =>
      -- joining changes neither kind nor beginning of the next piece
      obtain ⟨hkind, hpre⟩ := head_cons hq
      obtain ⟨c, t, hr⟩ := List.exists_cons_of_ne_nil (hne' r (List.mem_cons_self ..))
      rw [hr] at hpre
      obtain ⟨more, hmore⟩ := hpre
      rintro hpinner hqinner ⟨a, ha, b, hb, hab⟩
      have hb' : b ∈ r.text.head? := by
        rw [← hmore] at hb
        rw [hr]
        exact hb
      exact (hp r rfl hpinner (hkind ▸ hqinner) ⟨a, ha, b, hb', hab⟩).trans hkind.symm

end Piece

/-! ## Tokens -/

/-- **No seam inside a segment divides anything forbidden.** -/
theorem isChain_whole_tokenize (shortTags : Bool) (s : Text) :
    List.IsChain (fun t u : Token => t.kind.isInner = true → u.kind.isInner = true →
      ¬ Text.Straddles t.text u.text) (tokenize shortTags s) := by
  have hpieces := Reading.isChain_pieces shortTags .outside (Php.nonempty_lex [] s)
    (Php.isChain_lex [] s)
  have hne := Reading.pieces_nonempty shortTags (r := .outside) (by simp [Reading.HoldsText])
    (Php.lexemes s)
  have hseams := Piece.isChain_locate (Piece.isChain_seam_join hne hpieces) 0
  have hapart := tokenize_apart shortTags s
  rw [List.isChain_iff_forall_rel_of_append_cons_cons] at hseams hapart ⊢
  intro t u before after h ht hu hstraddles
  -- a seam that remains is one of different kinds
  have hmerge := (hapart h).kinds (hseams h ht hu hstraddles)
  rw [Kind.isMergeable_of_isInner ht] at hmerge
  cases hmerge

/-! ## Segments -/

/-- None of the parts is empty, and no seam of theirs divides anything forbidden. -/
structure Whole (parts : List Text) : Prop where
  nonempty : ∀ t ∈ parts, t ≠ []
  chain : List.IsChain (fun x y => ¬ Text.Straddles x y) parts

/-- The front parts of whole parts are whole. -/
theorem Whole.of_append {front back : List Text} (h : Whole (front ++ back)) : Whole front where
  nonempty t ht := h.nonempty t (List.mem_append_left back ht)
  chain := h.chain.left_of_append

namespace Outline

/-- The tokens up to the end of the segment. -/
def upcoming (ts : List Token) : List Text :=
  (ts.takeWhile (·.kind.isInner)).map (·.text)

/-- The tokens up to the end of a segment are whole if no seam in it divides anything forbidden. -/
theorem whole_upcoming {ts : List Token} (hne : ∀ t ∈ ts, t.text ≠ [])
    (hts : List.IsChain (fun t u : Token => t.kind.isInner = true → u.kind.isInner = true →
      ¬ Text.Straddles t.text u.text) ts) : Whole (upcoming ts) := by
  obtain ⟨rest, hsplit⟩ : ts.takeWhile (·.kind.isInner) <+: ts := List.takeWhile_prefix _
  have hinner : ∀ t ∈ ts.takeWhile (·.kind.isInner), t.kind.isInner = true :=
    List.all_eq_true.mp List.all_takeWhile
  constructor
  · intro x hx
    obtain ⟨t, ht, rfl⟩ := List.mem_map.mp hx
    refine hne t ?_
    rw [← hsplit]
    exact List.mem_append_left rest ht
  · rw [← hsplit] at hts
    rw [upcoming, List.isChain_map]
    exact hts.left_of_append.imp_of_mem_imp fun t u ht hu h => h (hinner t ht) (hinner u hu)

/-- The segments that are read are whole, if what is still to be read of the open one
keeps it so. -/
theorem whole_read {ts : List Token} {g : Option Segment} (offset : Nat) {final : Bool}
    (hrun : Kind.run g.isSome (ts.map (·.kind)) = some final) (hne : ∀ t ∈ ts, t.text ≠ [])
    (hts : List.IsChain (fun t u : Token => t.kind.isInner = true → u.kind.isInner = true →
      ¬ Text.Straddles t.text u.text) ts)
    (hg : ∀ h ∈ g, Whole (h.inner ++ upcoming ts)) :
    ∀ h ∈ (read g offset ts).segments, Whole h.inner := by
  induction ts generalizing g offset with
  | nil =>
    cases g with
    | none => exact List.forall_mem_nil _
    | some g =>
      refine List.forall_mem_singleton.mpr ?_
      exact (hg g rfl).of_append
  | cons t ts ih =>
    rw [List.map_cons, Kind.run_cons] at hrun
    obtain ⟨next, hnext, hrest⟩ := Option.bind_eq_some_iff.mp hrun
    obtain ⟨-, hne'⟩ := List.forall_mem_cons.mp hne
    obtain ⟨-, hts'⟩ := List.isChain_cons.mp hts
    have hnone : ∀ h ∈ (none : Option Segment), Whole (h.inner ++ upcoming ts) :=
      fun h hh => nomatch hh
    cases g with
    | none =>
      -- outside of segments: markup, or a tag that opens one
      cases hkind : t.kind <;> simp [hkind, Kind.advance] at hnext
      all_goals subst hnext
      case inlineHtml =>
        have htail := ih (g := none) (offset + t.text.length) hrest hne' hts' hnone
        simpa [read, hkind, Kind.isOpen, segments, prepend] using htail
      case openTag | openTagWithEcho =>
        -- a new segment
        have hopen : ∀ h ∈ some (Segment.mk offset t.text []), Whole (h.inner ++ upcoming ts) := by
          intro h hh
          obtain rfl := Option.some.inj hh
          exact whole_upcoming hne' hts'
        have htail := ih (g := some ⟨offset, t.text, []⟩) (offset + t.text.length) hrest hne' hts'
          hopen
        simpa [read, hkind, Kind.isOpen] using htail
    | some g =>
      cases hkind : t.kind <;> simp [hkind, Kind.advance] at hnext
      all_goals subst hnext
      case closeTag =>
        have hwhole : Whole g.inner := (hg g rfl).of_append
        have htail := ih (g := none) (offset + t.text.length) hrest hne' hts' hnone
        simpa [read, hkind, segments, prepend, cons, hwhole] using htail
      case code | comment | other =>
        -- what was to be read next has been read
        have hmore : ∀ h ∈ some (g.extend t.text), Whole (h.inner ++ upcoming ts) := by
          intro h hh
          obtain rfl := Option.some.inj hh
          have hwhole := hg g rfl
          rw [upcoming, List.takeWhile_cons_of_pos (by rw [hkind]; rfl), List.map_cons] at hwhole
          simpa [Segment.extend, upcoming] using hwhole
        have htail := ih (g := some (g.extend t.text)) (offset + t.text.length) hrest hne' hts'
          hmore
        simpa [read, hkind] using htail

/-- **A segment is whole**: nothing forbidden lies across the seams of its tokens. -/
theorem whole_of_mem_segments {shortTags : Bool} {s : Text} {g : Segment}
    (hg : g ∈ (ofTokens (tokenize shortTags s)).segments) : Whole g.inner := by
  obtain ⟨final, hrun⟩ := tokenize_run shortTags s
  have hne := (tokenize_partition shortTags s).2.1
  exact whole_read (g := none) 0 hrun hne (isChain_whole_tokenize shortTags s)
    (fun h hh => nomatch hh) g hg

end Outline

/-! ## The disguise -/

/-- The last characters of what is forbidden. -/
def forbiddenEnds : Text :=
  ['"', '\'', '>', '/']

/-- An opening tag ends with no hook, and it holds nothing that ends something
forbidden. -/
theorem clear_of_isOpen {shortTags : Bool} {s : Text} {t : Token} (ht : t ∈ tokenize shortTags s)
    (hkind : t.kind.isOpen = true) :
    (∃ c ∈ t.text.getLast?, c ∉ Text.hooks) ∧ ∀ c ∈ t.text, c ∉ forbiddenEnds := by
  have hbare : (∃ c ∈ "<?".toList.getLast?, c ∉ Text.hooks) ∧
      ∀ c ∈ "<?".toList, c ∉ forbiddenEnds := by decide
  have hecho : (∃ c ∈ "<?=".toList.getLast?, c ∉ Text.hooks) ∧
      ∀ c ∈ "<?=".toList, c ∉ forbiddenEnds := by decide
  cases hκ : t.kind <;> rw [hκ] at hkind <;> cases hkind
  case openTagWithEcho =>
    rw [openTagWithEcho_spelling ht hκ]
    exact hecho
  case openTag =>
    rcases openTag_spelling ht hκ with hlong | ⟨-, hshort⟩
    · -- lower-casing changes none of the characters in question
      have hhooks : ∀ c ∈ Text.hooks, c.toLower ≠ 'p' := by decide
      have hends : ∀ c ∈ forbiddenEnds, c.toLower ∉ "<?php".toList := by decide
      constructor
      · have hlast : (t.text.map Char.toLower).getLast? = some 'p' := by
          rw [hlong]
          rfl
        rw [List.getLast?_map] at hlast
        obtain ⟨c, hc, hlower⟩ := Option.map_eq_some_iff.mp hlast
        exact ⟨c, hc, fun hhook => hhooks c hhook hlower⟩
      · intro c hc hend
        refine hends c hend ?_
        rw [← hlong]
        exact List.mem_map_of_mem hc
    · rw [hshort]
      exact hbare

/-- **Nothing forbidden occurs in an escaped segment**, its tags included. -/
theorem not_infix_escaped (k : Codec) (ranges : List ContextRange) {shortTags : Bool} {s : Text}
    {g : Segment} (hg : g ∈ (Outline.ofTokens (tokenize shortTags s)).segments) {q : Text}
    (hq : q ∈ (g.style ranges).forbidden) : ¬ q <:+: g.escaped k ranges := by
  obtain ⟨t, ht, hkind, hopener⟩ := exists_opening_token hg
  obtain ⟨⟨a, ha, hhook⟩, hclear⟩ := clear_of_isOpen ht hkind
  rw [hopener] at ha hclear
  have hwhole := Outline.whole_of_mem_segments hg
  have hparts : g.escaped k ranges = (g.opener :: (g.inner.map (k.encode (g.style ranges)) ++
      [Disguise.suppliedClose])).flatten := by
    simp [Segment.escaped, List.flatMap_def]
  rw [hparts]
  refine Text.not_infix_flatten hq ?_ ?_ ?_
  · refine List.forall_mem_cons.mpr ⟨fun hnil => ?_, List.forall_mem_append.mpr
      ⟨List.forall_mem_map.mpr fun t ht => k.encode_ne_nil _ (hwhole.nonempty t ht), by decide⟩⟩
    rw [hnil] at ha
    cases ha
  · refine List.forall_mem_cons.mpr ⟨fun h => ?_, List.forall_mem_append.mpr
      ⟨List.forall_mem_map.mpr fun t _ => k.not_infix_encode hq t, ?_⟩⟩
    · -- the opening tag is not encoded, but it has no character that ends something forbidden
      have hall : ∀ style : Style, ∀ q ∈ style.forbidden, ∃ c ∈ q, c ∈ forbiddenEnds := by
        intro style
        cases style <;> decide
      obtain ⟨c, hc, hend⟩ := hall _ q hq
      exact hclear c (h.subset hc) hend
    · have hall : ∀ style : Style, ∀ q ∈ style.forbidden, ¬ q <:+: Disguise.suppliedClose := by
        intro style
        cases style <;> decide
      exact List.forall_mem_singleton.mpr (hall _ q hq)
  · -- behind the opening tag, between the tokens, before the closing tag
    refine List.isChain_cons.mpr ⟨?_, List.isChain_append.mpr
      ⟨?_, List.isChain_singleton _, ?_⟩⟩
    · rintro y - ⟨b, hb, c, -, hbc⟩
      obtain rfl := Option.some.inj (ha.symm.trans hb)
      exact hhook (Text.mem_hooks hbc)
    · rw [List.isChain_map]
      exact hwhole.chain.imp fun x y h => k.not_straddles_encode _ h
    · rintro x - y hy ⟨b, -, c, hc, hbc⟩
      obtain rfl := Option.some.inj hy
      obtain rfl := Option.some.inj hc
      have hquestion : ∀ p ∈ Text.divisions, p.2 ≠ '?' := by decide
      exact hquestion _ hbc rfl

/-- **Code cannot break out of its disguise.** The disguise is the gaps of the template
and its hidden segments, each between a start and an end of one style; and between the
two stands no quote, no terminator of a comment of that style, and in scripts no opener
of an end tag. -/
theorem disguise_confines (k : Codec) (ranges : List ContextRange) (shortTags : Bool) (s : Text) :
    let o := Outline.ofTokens (tokenize shortTags s)
    disguise k ranges (tokenize shortTags s) =
        o.weave (fun g =>
          k.wrapStart (g.style ranges) ++ g.escaped k ranges ++ k.wrapEnd (g.style ranges)) ∧
      ∀ g ∈ o.segments,
        '"' ∉ g.escaped k ranges ∧ '\'' ∉ g.escaped k ranges ∧
        (g.style ranges = .markup → ¬ "-->".toList <:+: g.escaped k ranges) ∧
        (g.style ranges = .code →
          ¬ "*/".toList <:+: g.escaped k ranges ∧ ¬ "</".toList <:+: g.escaped k ranges) := by
  intro o
  refine ⟨disguise_eq_weave k ranges shortTags s, fun g hg => ?_⟩
  have hfree {q : Text} (hq : q ∈ (g.style ranges).forbidden) := not_infix_escaped k ranges hg hq
  have hquotes : ∀ style : Style, ['"'] ∈ style.forbidden ∧ ['\''] ∈ style.forbidden := by
    intro style
    cases style <;> decide
  refine ⟨?_, ?_, fun hstyle => ?_, fun hstyle => ?_⟩
  · intro hmem
    obtain ⟨x, y, hxy⟩ := List.append_of_mem hmem
    exact hfree (hquotes _).1 ⟨x, y, by simp [hxy]⟩
  · intro hmem
    obtain ⟨x, y, hxy⟩ := List.append_of_mem hmem
    exact hfree (hquotes _).2 ⟨x, y, by simp [hxy]⟩
  · exact hfree (by rw [hstyle]; decide)
  · exact ⟨hfree (by rw [hstyle]; decide), hfree (by rw [hstyle]; decide)⟩

/-- A template with a terminator in a string and an end tag in a script: one segment in
either style. -/
theorem disguise_confines_both_styles :
    let s := "<?= '-->' ?><script><?= \"</\" ?></script>".toList
    let ranges : List ContextRange := [⟨20, some 30⟩]
    let o := Outline.ofTokens (tokenize false s)
    o.segments = [⟨0, "<?=".toList, [" '-->' ".toList]⟩, ⟨20, "<?=".toList, [" \"</\" ".toList]⟩] ∧
      o.segments.map (Segment.style ranges) = [.markup, .code] ∧
      (∀ g ∈ o.segments, g.style ranges = .markup →
        ¬ "-->".toList <:+: g.escaped Codec.usual ranges) ∧
      ∀ g ∈ o.segments, g.style ranges = .code →
        ¬ "</".toList <:+: g.escaped Codec.usual ranges := by
  intro s ranges o
  obtain ⟨-, hconfined⟩ := disguise_confines Codec.usual ranges false s
  refine ⟨by decide +kernel, by decide +kernel, ?_, ?_⟩
  · intro g hg hstyle
    exact (hconfined g hg).2.2.1 hstyle
  · intro g hg hstyle
    exact ((hconfined g hg).2.2.2 hstyle).2

end TemplateTidy
