import TemplateTidy.Beautify
import TemplateTidy.Proofs.Token.Grammar

/-!
# The outline of a template

A template is an alternation of gaps and code segments, `A₀ S₁ A₁ … Sₙ Aₙ`. A
segment runs from its opening tag through its `?>`; the line break that a
closing tag holds belongs to the gap after it, and a segment that is left open
at the end has its `?>` supplied.

The disguise of a template has the same gaps, with each segment turned into a
comment as a whole: the pieces that are hidden token by token fit together.

Main results: `disguise_eq_weave`, `weave_source`.
-/

namespace TemplateTidy

/-! ## Segments -/

/-- A code segment: where it starts, its opening tag, and the tokens in it. -/
structure Segment where
  start : Nat
  opener : Text
  inner : List Text
  deriving DecidableEq

namespace Segment

/-- The segment as it stands in the template. -/
def source (g : Segment) : Text :=
  g.opener ++ g.inner.flatten ++ Disguise.suppliedClose

/-- The style of comment that hides the segment. -/
def style (ranges : List ContextRange) (g : Segment) : Style :=
  Disguise.styleAt ranges g.start

/-- The segment with what it holds escaped. -/
def escaped (k : Codec) (ranges : List ContextRange) (g : Segment) : Text :=
  g.opener ++ g.inner.flatMap (k.encode (g.style ranges)) ++ Disguise.suppliedClose

/-- The segment in disguise. -/
def hidden (k : Codec) (ranges : List ContextRange) (g : Segment) : Text :=
  k.wrapStart (g.style ranges) ++ g.escaped k ranges ++ k.wrapEnd (g.style ranges)

/-- The disguise of the segment up to its closing tag. -/
def hiddenFront (k : Codec) (ranges : List ContextRange) (g : Segment) : Text :=
  k.wrapStart (g.style ranges) ++ g.opener ++ g.inner.flatMap (k.encode (g.style ranges))

/-- The disguise of a segment is its front, closed. -/
theorem hidden_eq (k : Codec) (ranges : List ContextRange) (g : Segment) :
    g.hidden k ranges =
      g.hiddenFront k ranges ++ Disguise.suppliedClose ++ k.wrapEnd (g.style ranges) := by
  simp [hidden, escaped, hiddenFront]

/-- The segment with one more token in it. -/
def extend (g : Segment) (t : Text) : Segment :=
  { g with inner := g.inner ++ [t] }

/-- A token more in a segment is a token more in its disguise. -/
theorem hiddenFront_extend (k : Codec) (ranges : List ContextRange) (g : Segment) (t : Text) :
    (g.extend t).hiddenFront k ranges =
      g.hiddenFront k ranges ++ k.encode (g.style ranges) t := by
  simp [hiddenFront, extend, style]

end Segment

/-! ## Outlines -/

/-- An alternation of gaps and segments: the first gap, then every segment with
the gap after it. -/
structure Outline where
  first : Text
  rest : List (Segment × Text)
  deriving DecidableEq

namespace Outline

/-- The segments, in order. -/
def segments (o : Outline) : List Segment :=
  o.rest.map (·.1)

/-- The gaps, of which there is one more than segments. -/
def gaps (o : Outline) : List Text :=
  o.first :: o.rest.map (·.2)

/-- The text with the segments written in a given way. -/
def weave (write : Segment → Text) (o : Outline) : Text :=
  o.first ++ o.rest.flatMap fun (g, gap) => write g ++ gap

/-- The outline with more text in front. -/
def prepend (t : Text) (o : Outline) : Outline :=
  { o with first := t ++ o.first }

/-- The outline with a segment in front. -/
def cons (g : Segment) (o : Outline) : Outline :=
  ⟨[], (g, o.first) :: o.rest⟩

/-- The outline of tokens that begin at an offset, maybe inside a segment. -/
def read : Option Segment → Nat → List Token → Outline
  | none, _, [] => ⟨[], []⟩
  | some g, _, [] => cons g ⟨[], []⟩
  | none, offset, t :: ts =>
    if t.kind.isOpen then read (some ⟨offset, t.text, []⟩) (offset + t.text.length) ts
    else prepend t.text (read none (offset + t.text.length) ts)
  | some g, offset, t :: ts =>
    if t.kind = .closeTag then
      cons g (prepend (t.text.drop Disguise.suppliedClose.length)
        (read none (offset + t.text.length) ts))
    else read (some (g.extend t.text)) (offset + t.text.length) ts

/-- The outline of the tokens of a template. -/
def ofTokens (tokens : List Token) : Outline :=
  read none 0 tokens

@[simp] theorem weave_prepend (write : Segment → Text) (t : Text) (o : Outline) :
    (prepend t o).weave write = t ++ o.weave write := by
  simp [prepend, weave]

@[simp] theorem weave_cons (write : Segment → Text) (g : Segment) (o : Outline) :
    (cons g o).weave write = write g ++ o.weave write := by
  simp [cons, weave]

/-- A segment and the gap after it stand side by side. -/
theorem infix_weave_of_mem (write : Segment → Text) {o : Outline} {g : Segment} {gap : Text}
    (h : (g, gap) ∈ o.rest) : write g ++ gap <:+: o.weave write := by
  obtain ⟨before, after, hrest⟩ := List.append_of_mem h
  rw [weave, hrest, List.flatMap_append, List.flatMap_cons, ← List.append_assoc]
  exact List.infix_append' _ _ _

end Outline

open Token (Kind)

/-! ## The disguise, segment by segment -/

namespace Disguise

/-- A closing tag is followed by the end of its comment and then by its line
break. -/
theorem closeTag_eq {close : Text} (hclose : close ∈ Piece.closeTags) (wrapper : Text) :
    closeTag close wrapper = suppliedClose ++ wrapper ++ close.drop suppliedClose.length := by
  have hbare : Text.trimRight close = suppliedClose := by
    have hall : ∀ close ∈ Piece.closeTags, Text.trimRight close = suppliedClose := by
      decide +kernel
    exact hall close hclose
  rw [closeTag, hbare]

/-- The state fits an open segment, or none. -/
def Fits (ranges : List ContextRange) (d : Disguise) : Option Segment → Prop
  | none => d.unclosed = false
  | some g => d.segment = some (g.style ranges) ∧ d.unclosed = true

/-- What has been written of an open segment. -/
def begun (k : Codec) (ranges : List ContextRange) : Option Segment → Text
  | none => []
  | some g => g.hiddenFront k ranges

/-- Inside a segment its style is kept. -/
theorem style_of_fits {ranges : List ContextRange} {d : Disguise} {g : Segment}
    (hd : d.Fits ranges (some g)) : d.style ranges = g.style ranges := by
  rw [style, hd.1, Option.getD_some]

/-- The tokens in disguise, from a state on, complete what has been written of the
open segment to an alternation of gaps and hidden segments. -/
theorem run_eq_weave (k : Codec) (ranges : List ContextRange) {ts : List Token}
    {d : Disguise} {g : Option Segment} {final : Bool} (hd : d.Fits ranges g)
    (hrun : Kind.run g.isSome (ts.map (·.kind)) = some final)
    (hclose : ∀ t ∈ ts, t.kind = .closeTag → t.text ∈ Piece.closeTags) :
    begun k ranges g ++ run k ranges d ts =
      (Outline.read g d.offset ts).weave (Segment.hidden k ranges) := by
  induction ts generalizing d g with
  | nil =>
    cases g with
    | none => simp [run, finish, show d.unclosed = false from hd, begun, Outline.read,
        Outline.weave]
    | some g =>
      have hstyle := style_of_fits hd
      simp [run, finish, hd.2, hstyle, begun, Outline.read, Outline.weave, Outline.cons,
        Segment.hidden_eq]
  | cons t ts ih =>
    rw [List.map_cons, Kind.run_cons] at hrun
    obtain ⟨next, hnext, hrest⟩ := Option.bind_eq_some_iff.mp hrun
    have hclose' : ∀ u ∈ ts, u.kind = .closeTag → u.text ∈ Piece.closeTags :=
      fun u hu => hclose u (List.mem_cons_of_mem _ hu)
    have hoffset : (d.next ranges t).offset = d.offset + t.text.length := rfl
    rw [run]
    cases g with
    | none =>
      -- outside: markup goes to the gap, an opening tag opens a segment
      cases hkind : t.kind <;> simp [hkind, Kind.advance] at hnext
      all_goals subst hnext
      case inlineHtml =>
        have htail := ih (d := d.next ranges t) (g := none) (by simp [Fits, next, hkind]) hrest
          hclose'
        rw [hoffset] at htail
        simp only [Outline.read, hkind, Kind.isOpen, Bool.false_eq_true, if_false,
          Outline.weave_prepend, ← htail, begun, hide, List.nil_append]
      case openTag | openTagWithEcho =>
        have htail := ih (d := d.next ranges t) (g := some ⟨d.offset, t.text, []⟩)
          (by simp [Fits, next, hkind, Segment.style]) hrest hclose'
        rw [hoffset] at htail
        simp only [Outline.read, hkind, Kind.isOpen, if_true, ← htail, begun, hide,
          List.nil_append]
        simp [Segment.hiddenFront, Segment.style]
    | some g =>
      -- inside: a closing tag completes the segment, all else extends it
      have hstyle := style_of_fits hd
      cases hkind : t.kind <;> simp [hkind, Kind.advance] at hnext
      all_goals subst hnext
      case closeTag =>
        have htail := ih (d := d.next ranges t) (g := none) (by simp [Fits, next, hkind]) hrest
          hclose'
        rw [hoffset] at htail
        have hmark := closeTag_eq (hclose t (List.mem_cons_self ..) hkind)
          (k.wrapEnd (g.style ranges))
        simp only [Outline.read, hkind, if_true, Outline.weave_cons, Outline.weave_prepend,
          ← htail, begun, hide, hmark, hstyle, Segment.hidden_eq]
        simp
      case code | comment | other =>
        have htail := ih (d := d.next ranges t) (g := some (g.extend t.text))
          (by
            have hsegment : d.segment = some (g.style ranges) := hd.1
            simp [Fits, next, hkind, hsegment, Segment.style, Segment.extend]) hrest hclose'
        rw [hoffset] at htail
        simp only [Outline.read, hkind, reduceCtorEq, if_false, ← htail, begun, hide, hstyle,
          Segment.hiddenFront_extend]
        simp

end Disguise

namespace Outline

/-- What stands in the template of an open segment so far. -/
def opened : Option Segment → Text
  | none => []
  | some g => g.opener ++ g.inner.flatten

/-- The segments as they stand in the template, with the gaps between them, are the
tokens, and a closing tag if one had to be supplied. -/
theorem read_weave_source {ts : List Token} {g : Option Segment} (offset : Nat) {final : Bool}
    (hrun : Kind.run g.isSome (ts.map (·.kind)) = some final)
    (hclose : ∀ t ∈ ts, t.kind = .closeTag → t.text ∈ Piece.closeTags) :
    (read g offset ts).weave Segment.source =
      opened g ++ ts.flatMap (·.text) ++ if final then Disguise.suppliedClose else [] := by
  induction ts generalizing g offset with
  | nil =>
    obtain rfl : g.isSome = final := Option.some.inj hrun
    cases g with
    | none => rfl
    | some g => simp [read, weave, cons, opened, Segment.source]
  | cons t ts ih =>
    rw [List.map_cons, Kind.run_cons] at hrun
    obtain ⟨next, hnext, hrest⟩ := Option.bind_eq_some_iff.mp hrun
    have hclose' : ∀ u ∈ ts, u.kind = .closeTag → u.text ∈ Piece.closeTags :=
      fun u hu => hclose u (List.mem_cons_of_mem _ hu)
    cases g with
    | none =>
      -- of the kinds that may stand here, each is read in its own way
      cases hkind : t.kind <;> simp [hkind, Kind.advance] at hnext
      all_goals subst hnext
      case inlineHtml =>
        have htail := ih (g := none) (offset + t.text.length) hrest hclose'
        simp [read, hkind, Kind.isOpen, htail, opened]
      case openTag | openTagWithEcho =>
        have htail := ih (g := some ⟨offset, t.text, []⟩) (offset + t.text.length) hrest
          hclose'
        simp [read, hkind, Kind.isOpen, htail, opened]
    | some g =>
      cases hkind : t.kind <;> simp [hkind, Kind.advance] at hnext
      all_goals subst hnext
      case closeTag =>
        have htail := ih (g := none) (offset + t.text.length) hrest hclose'
        -- the line break of the tag goes to the gap behind it
        have hcut : Disguise.suppliedClose ++ t.text.drop Disguise.suppliedClose.length =
            t.text := by
          have hall : ∀ close ∈ Piece.closeTags,
              Disguise.suppliedClose ++ close.drop Disguise.suppliedClose.length = close := by
            decide +kernel
          exact hall t.text (hclose t (List.mem_cons_self ..) hkind)
        simp only [read, hkind, if_true, weave_cons, weave_prepend, htail, opened, Segment.source,
          List.flatMap_cons, List.nil_append]
        conv => rhs; rw [← hcut]
        simp
      case code | comment | other =>
        have htail := ih (g := some (g.extend t.text)) (offset + t.text.length) hrest
          hclose'
        have hextend : opened (some (g.extend t.text)) = opened (some g) ++ t.text := by
          simp [opened, Segment.extend]
        simp [read, hkind, htail, hextend]

/-- There is one segment for each opening tag. -/
theorem openers_of_read {ts : List Token} {g : Option Segment} (offset : Nat) {final : Bool}
    (hrun : Kind.run g.isSome (ts.map (·.kind)) = some final) :
    (read g offset ts).segments.map (·.opener) =
      g.toList.map (·.opener) ++ (ts.filter (·.kind.isOpen)).map (·.text) := by
  induction ts generalizing g offset with
  | nil => cases g <;> rfl
  | cons t ts ih =>
    rw [List.map_cons, Kind.run_cons] at hrun
    obtain ⟨next, hnext, hrest⟩ := Option.bind_eq_some_iff.mp hrun
    cases g with
    | none =>
      -- outside of segments the grammar allows markup and the opening tags
      cases hkind : t.kind <;> simp [hkind, Kind.advance] at hnext
      all_goals subst hnext
      case inlineHtml =>
        have htail := ih (g := none) (offset + t.text.length) hrest
        simpa [read, hkind, Kind.isOpen, segments, prepend] using htail
      case openTag | openTagWithEcho =>
        have htail := ih (g := some ⟨offset, t.text, []⟩) (offset + t.text.length) hrest
        simpa [read, hkind, Kind.isOpen] using htail
    | some g =>
      -- in a segment it allows everything else
      cases hkind : t.kind <;> simp [hkind, Kind.advance] at hnext
      all_goals subst hnext
      case closeTag =>
        have htail := ih (g := none) (offset + t.text.length) hrest
        simpa [read, hkind, Kind.isOpen, segments, prepend, cons] using htail
      case code | comment | other =>
        have htail := ih (g := some (g.extend t.text)) (offset + t.text.length) hrest
        simpa [read, hkind, Kind.isOpen, Segment.extend] using htail

end Outline

/-- **The disguise has the gaps of the template**, and its segments hidden one by
one. -/
theorem disguise_eq_weave (k : Codec) (ranges : List ContextRange) (shortTags : Bool) (s : Text) :
    disguise k ranges (tokenize shortTags s) =
      (Outline.ofTokens (tokenize shortTags s)).weave (Segment.hidden k ranges) := by
  obtain ⟨final, hrun⟩ := tokenize_run shortTags s
  exact Disguise.run_eq_weave k ranges (d := {}) (g := none) rfl hrun fun t ht => closeTag_text ht

/-- The outline of a template is the template, with a closing tag supplied if it
ends inside a segment. -/
theorem weave_source {shortTags : Bool} {s : Text} {final : Bool}
    (hrun : Kind.run false ((tokenize shortTags s).map (·.kind)) = some final) :
    (Outline.ofTokens (tokenize shortTags s)).weave Segment.source =
      s ++ if final then Disguise.suppliedClose else [] := by
  have h := Outline.read_weave_source (g := none) 0 hrun fun t ht => closeTag_text ht
  rw [tokenize_text] at h
  exact h

/-- A segment opens with an opening tag of the template. -/
theorem exists_opening_token {shortTags : Bool} {s : Text} {g : Segment}
    (hg : g ∈ (Outline.ofTokens (tokenize shortTags s)).segments) :
    ∃ t ∈ tokenize shortTags s, t.kind.isOpen = true ∧ t.text = g.opener := by
  obtain ⟨final, hrun⟩ := tokenize_run shortTags s
  have hopeners := Outline.openers_of_read (g := none) 0 hrun
  have hmem := List.mem_map_of_mem (f := Segment.opener) hg
  rw [Outline.ofTokens, hopeners, Option.toList_none, List.map_nil, List.nil_append] at hmem
  obtain ⟨t, ht, htext⟩ := List.mem_map.mp hmem
  obtain ⟨ht, hkind⟩ := List.mem_filter.mp ht
  exact ⟨t, ht, hkind, htext⟩

/-- The segments of a template begin with `<?`. -/
theorem opener_of_mem_segments {shortTags : Bool} {s : Text} {g : Segment}
    (hg : g ∈ (Outline.ofTokens (tokenize shortTags s)).segments) : "<?".toList <+: g.opener := by
  obtain ⟨t, ht, hkind, htext⟩ := exists_opening_token hg
  rw [← htext]
  exact openTag_text ht hkind

/-- The segments of a template begin with `<` and end with `>`. -/
theorem source_of_mem_segments {shortTags : Bool} {s : Text} {g : Segment}
    (hg : g ∈ (Outline.ofTokens (tokenize shortTags s)).segments) :
    ∃ mid, g.source = '<' :: mid ++ ['>'] := by
  obtain ⟨rest, hrest⟩ := opener_of_mem_segments hg
  refine ⟨'?' :: rest ++ g.inner.flatten ++ ['?'], ?_⟩
  rw [Segment.source, ← hrest]
  simp [Disguise.suppliedClose]

end TemplateTidy
