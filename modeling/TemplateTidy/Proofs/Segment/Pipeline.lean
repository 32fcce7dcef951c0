import TemplateTidy.Beautify
import TemplateTidy.Proofs.Markup.Flow
import TemplateTidy.Proofs.Segment.Restore

/-!
# A template on its way through the formatter

What holds of every template that is laid out in full: the formatter gets its
outline with the segments hidden, and what comes out is decoded. The indentation
that a record asks for is white space.

Main results: `exists_of_beautify`, `prepare_spec`.
-/

namespace TemplateTidy

/-- The options of a record indent with white space. -/
theorem MarkupOptions.indentsBlank_ofRecord (r : Record) :
    (MarkupOptions.ofRecord r).IndentsBlank := by
  show (MarkupOptions.indentCharOf r).Blank
  unfold MarkupOptions.indentCharOf
  split
  · decide
  · decide
  · split <;> decide

/-- A template off the short path is prepared, formatted and decoded. -/
theorem exists_of_beautify {draws : Draws} {draw : Nat} {o : MarkupOptions} {shortTags : Bool}
    {s out : Text} (hfull : isWholeCodeBlock s = false)
    (hout : (beautify draws draw o shortTags s).result = .ok out) :
    ∃ p formatted, prepare (Codec.forText draws draw s).1 shortTags s = .ok p ∧
      formatMarkup o p.disguised = .ok formatted ∧
      out = (Codec.forText draws draw s).1.decode formatted := by
  rw [beautify, beautifyWith, hfull, if_neg Bool.false_ne_true] at hout
  dsimp only at hout
  cases hprepare : prepare (Codec.forText draws draw s).1 shortTags s with
  | error fault =>
    rw [hprepare] at hout
    cases hout
  | ok p =>
    rw [hprepare] at hout
    cases hformat : formatMarkup o p.disguised with
    | error fault =>
      simp [Formatter.markup, hformat, Except.mapError, Except.map] at hout
    | ok formatted =>
      refine ⟨p, formatted, rfl, hformat, ?_⟩
      simpa [Formatter.markup, hformat, Except.mapError, Except.map] using hout.symm

/-- A prepared template is its outline with the segments hidden. -/
theorem prepare_spec {k : Codec} {shortTags : Bool} {s : Text} {p : Prepared}
    (h : prepare k shortTags s = .ok p) :
    p.codec = k ∧ p.tokens = tokenize shortTags s ∧
      p.disguised =
        (Outline.ofTokens (tokenize shortTags s)).weave (Segment.hidden k p.ranges) := by
  unfold prepare at h
  dsimp only at h
  cases hfind : ContextRange.find ContextRange.codeElements (tokenize shortTags s) with
  | error fault =>
    rw [hfind] at h
    cases h
  | ok ranges =>
    rw [hfind] at h
    obtain rfl := Except.ok.inj h
    exact ⟨rfl, rfl, disguise_eq_weave k ranges shortTags s⟩

end TemplateTidy
