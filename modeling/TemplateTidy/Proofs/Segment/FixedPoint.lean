import TemplateTidy.Proofs.Markup.Steady
import TemplateTidy.Proofs.Segment.Pipeline
import TemplateTidy.Proofs.Segment.Whole
import TemplateTidy.Proofs.Token.Spelling

/-!
# Beautifying again

A template that has been beautified is beautified to itself, if its markup is steady and
if hiding the segments of the output gives what has been laid out. The latter can fail,
because where a segment ends is read off the text behind it: a line break that the layout
puts behind a closing tag turns code before the tag into a comment, which then takes in
the tag.

A template that is one code segment is no exception: the white space before it goes, and
what is left is one code segment with none before it (`isWholeCodeBlock_trimLeft`).

Main result: `beautify_beautify`.
-/

namespace TemplateTidy

/-- The output is read as it was laid out: hiding its segments again, under a codec with the
same nonce, gives the markup that was printed. -/
def readsBack (draws : Draws) (draw : Nat) (shortTags : Bool) (k : Codec) (formatted : Text) :
    Bool :=
  let again := (Codec.forText draws draw (k.decode formatted)).1
  decide (again.nonce = k.nonce) &&
    match prepare again shortTags (k.decode formatted) with
    | .ok p => decide (p.disguised = formatted)
    | .error _ => false

/-- The template is beautified so that it stays as it is: it is one code segment, or its
markup is steady and the output is read as it was laid out. -/
def staysPut (draws : Draws) (draw again : Nat) (o : MarkupOptions) (shortTags : Bool) (s : Text) :
    Bool :=
  isWholeCodeBlock s ||
    let k := (Codec.forText draws draw s).1
    match prepare k shortTags s with
    | .error _ => true
    | .ok p =>
      isSteady o p.disguised &&
        match formatMarkup o p.disguised with
        | .error _ => true
        | .ok formatted => readsBack draws again shortTags k formatted

/-- What is read back is the disguise of the output, under the same codec. -/
theorem exists_of_readsBack {draws : Draws} {draw : Nat} {shortTags : Bool} {k : Codec}
    {formatted : Text} (h : readsBack draws draw shortTags k formatted = true) :
    ∃ p, prepare k shortTags (k.decode formatted) = .ok p ∧ p.disguised = formatted ∧
      (Codec.forText draws draw (k.decode formatted)).1 = k := by
  unfold readsBack at h
  dsimp only at h
  rw [Bool.and_eq_true, decide_eq_true_eq] at h
  obtain ⟨hnonce, hback⟩ := h
  have hcodec : (Codec.forText draws draw (k.decode formatted)).1 = k := by
    generalize (Codec.forText draws draw (k.decode formatted)).1 = k' at hnonce
    cases k
    cases k'
    subst hnonce
    rfl
  rw [hcodec] at hback
  split at hback
  · rename_i p hp
    exact ⟨p, hp, of_decide_eq_true hback, hcodec⟩
  · cases hback

/-- The options of a record indent with blanks or tabs. -/
theorem MarkupOptions.indentsInLine_ofRecord (r : Record) :
    (MarkupOptions.ofRecord r).IndentsInLine := by
  refine ⟨MarkupOptions.indentsBlank_ofRecord r, ?_⟩
  show '\n' ∉ MarkupOptions.indentCharOf r
  unfold MarkupOptions.indentCharOf
  split
  · decide
  · decide
  · split <;> decide

/-- A template begins as its hidden form does, or with a code segment. -/
theorem head_of_prepare {k : Codec} {shortTags : Bool} {s : Text} {p : Prepared}
    (h : prepare k shortTags s = .ok p) {c : Char} (hc : s.head? = some c) :
    c = '<' ∨ p.disguised.head? = some c := by
  obtain ⟨-, -, hdisguised⟩ := prepare_spec h
  obtain ⟨final, hrun⟩ := tokenize_run shortTags s
  have hsource := weave_source hrun
  rw [hdisguised]
  have hsegments : ∀ g ∈ (Outline.ofTokens (tokenize shortTags s)).segments,
      ∃ mid, g.source = '<' :: mid ++ ['>'] := fun g hg => source_of_mem_segments hg
  have hwoven :
      ((Outline.ofTokens (tokenize shortTags s)).weave Segment.source).head? = some c := by
    obtain ⟨t, ht⟩ := List.head?_eq_some_iff.mp hc
    rw [hsource]
    nth_rewrite 1 [ht]
    rfl
  generalize Outline.ofTokens (tokenize shortTags s) = o at hwoven hsegments ⊢
  obtain ⟨first, rest⟩ := o
  cases first with
  | cons d first =>
    -- both begin with the gap
    right
    exact hwoven
  | nil =>
    left
    -- both begin with a segment, and its opening tag begins with a bracket
    cases rest with
    | nil => cases hwoven
    | cons x rest =>
      obtain ⟨g, gap⟩ := x
      obtain ⟨mid, hmid⟩ := hsegments g (List.mem_cons_self ..)
      have hstart : (Outline.weave Segment.source ⟨[], (g, gap) :: rest⟩).head? = some '<' := by
        rw [Outline.weave, List.flatMap_cons]
        dsimp only
        rw [hmid]
        rfl
      exact Option.some.inj (hwoven.symm.trans hstart)

/-- **Beautifying again changes nothing**, wherever the template stays put. -/
theorem beautify_beautify (draws : Draws) (draw again : Nat) (r : Record) (shortTags : Bool)
    (s out : Text)
    (hstays : staysPut draws draw again (.ofRecord r) shortTags s = true)
    (hout : (beautify draws draw (.ofRecord r) shortTags s).result = .ok out) :
    (beautify draws again (.ofRecord r) shortTags out).result = .ok out := by
  cases hwhole : isWholeCodeBlock s with
  | true =>
    rw [beautify, beautifyWith, if_pos hwhole] at hout
    obtain ⟨hagain, htrim⟩ := isWholeCodeBlock_trimLeft hwhole
    obtain rfl := Except.ok.inj hout
    rw [beautify, beautifyWith, if_pos hagain, htrim]
  | false =>
    obtain ⟨p, formatted, hprepare, hformat, rfl⟩ := exists_of_beautify hwhole hout
    rw [staysPut, hwhole, Bool.false_or] at hstays
    dsimp only at hstays
    rw [hprepare] at hstays
    dsimp only at hstays
    rw [hformat, Bool.and_eq_true] at hstays
    obtain ⟨hsteady, hback⟩ := hstays
    -- the layout of the output is the output
    obtain ⟨hfixed, hhead⟩ := formatMarkup_steady (MarkupOptions.indentsInLine_ofRecord r)
      hsteady hformat
    generalize (Codec.forText draws draw s).1 = k at *
    obtain ⟨q, hq, hdisguised, hcodec⟩ := exists_of_readsBack hback
    cases hagain : isWholeCodeBlock (k.decode formatted) with
    | true =>
      -- the output is one code segment now, and begins with no white space
      have htrim : Text.trimLeft (k.decode formatted) = k.decode formatted := by
        refine Text.trimLeft_eq_self fun c hc => ?_
        rcases head_of_prepare hq hc with rfl | hc
        · decide
        · rw [hdisguised] at hc
          exact hhead c hc
      rw [beautify, beautifyWith, if_pos hagain, htrim]
    | false =>
      rw [beautify, beautifyWith, hagain, if_neg Bool.false_ne_true]
      dsimp only
      rw [hcodec, hq]
      simp only [hdisguised, Formatter.markup, hfixed, Except.mapError, Except.map]

/-- A list with elements left open, attributes to be moved together, and code. -/
theorem beautify_beautify_list :
    let s := "<ul  class=a\n id=b><li><?= $x ?><li>two <b>three</b></ul>".toList
    let out :=
      "<ul class=a id=b>\n    <li><?= $x ?>\n    <li>two <b>three</b>\n</ul>".toList
    (beautify Draws.counter 0 (.ofRecord []) false s).result = .ok out ∧
      (beautify Draws.counter 1 (.ofRecord []) false out).result = .ok out := by
  intro s out
  have hout : (beautify Draws.counter 0 (.ofRecord []) false s).result = .ok out := by
    decide +kernel
  have hstays : staysPut Draws.counter 0 1 (.ofRecord []) false s = true := by
    decide +kernel
  exact ⟨hout, beautify_beautify Draws.counter 0 1 [] false s out hstays hout⟩

/-- A line break behind a closing tag turns the code before the tag into a comment that
takes in the tag. The segment is then left open, and gets another closing tag. -/
theorem beautify_supplies_close_again :
    let s := "<p><?php echo 1; // done ?></p><p>b</p>".toList
    let out := "<p><?php echo 1; // done ?></p>\n<p>b</p>".toList
    (beautify Draws.counter 0 (.ofRecord []) false s).result = .ok out ∧
      (beautify Draws.counter 0 (.ofRecord []) false out).result = .ok (out ++ "?>".toList) ∧
      (beautify Draws.counter 0 (.ofRecord []) false out).result ≠ .ok out := by
  intro s out
  have hagain : (beautify Draws.counter 0 (.ofRecord []) false out).result =
      .ok (out ++ "?>".toList) := by
    decide +kernel
  refine ⟨by decide +kernel, hagain, ?_⟩
  rw [hagain]
  decide

end TemplateTidy
