import TemplateTidy.Disguise
import TemplateTidy.Proofs.Token.Spelling

/-!
# The disguise keeps pace with the grammar

Disguising tokens keeps two notes: the style of the open segment, and whether the
last token lies in a segment. Along a run of the grammar's machine both say the
same as the state of the machine (`Disguise.InStep`). So what is done with a
closing tag or a piece of code outside of any segment is never needed for the
tokens of a template, and a closing tag is supplied at the end exactly if the
machine ends inside.

Main results: `Disguise.inStep_after`, `tokenize_grammar`.
-/

namespace TemplateTidy

open Token (Kind)

namespace Disguise

/-- The state after several tokens. -/
def after (ranges : List ContextRange) (d : Disguise) (ts : List Token) : Disguise :=
  ts.foldl (next ranges) d

/-- The tokens in disguise, from a state on, without what is put at the end. -/
def shown (k : Codec) (ranges : List ContextRange) (d : Disguise) : List Token → Text
  | [] => []
  | t :: ts => d.hide k ranges t ++ shown k ranges (d.next ranges t) ts

/-- The disguise is the tokens one by one, and then what an open segment needs at the end. -/
theorem run_eq_shown (k : Codec) (ranges : List ContextRange) (d : Disguise) (ts : List Token) :
    run k ranges d ts = shown k ranges d ts ++ (d.after ranges ts).finish k ranges := by
  induction ts generalizing d with
  | nil => rfl
  | cons t ts ih =>
    rw [run, shown, ih, List.append_assoc]
    rfl

/-- Both notes say whether a segment is open. -/
structure InStep (d : Disguise) (inside : Bool) : Prop where
  segment : d.segment.isSome = inside
  unclosed : d.unclosed = inside

/-- One token that may stand in the present state. -/
theorem inStep_next {ranges : List ContextRange} {d : Disguise} {inside next : Bool} {t : Token}
    (hd : d.InStep inside) (ht : Kind.advance inside t.kind = some next) :
    (d.next ranges t).InStep next := by
  obtain ⟨hsegment, hunclosed⟩ := hd
  -- of the kinds that the machine admits here, tags set both notes, the others keep them
  cases inside with
  | false =>
    cases hkind : t.kind <;> rw [hkind] at ht <;> cases ht <;>
      constructor <;> simp [Disguise.next, hkind, hsegment]
  | true =>
    cases hkind : t.kind <;> rw [hkind] at ht <;> cases ht <;>
      constructor <;> simp [Disguise.next, hkind, hsegment]

/-- Any number of tokens that form a run of the machine. -/
theorem inStep_after (ranges : List ContextRange) {d : Disguise} {inside final : Bool}
    {ts : List Token} (hd : d.InStep inside)
    (hrun : Kind.run inside (ts.map (·.kind)) = some final) :
    (d.after ranges ts).InStep final := by
  induction ts generalizing d inside with
  | nil =>
    obtain rfl : inside = final := Option.some.inj hrun
    exact hd
  | cons t ts ih =>
    rw [List.map_cons, Kind.run_cons] at hrun
    obtain ⟨next, hnext, hrest⟩ := Option.bind_eq_some_iff.mp hrun
    exact ih (inStep_next hd hnext) hrest

/-- A token that may not stand outside of a segment finds the style of its segment
noted. -/
theorem isSome_segment_of_inside {ranges : List ContextRange} {before after : List Token}
    {t : Token} {final : Bool}
    (hrun : Kind.run false ((before ++ t :: after).map (·.kind)) = some final)
    (ht : Kind.advance false t.kind = none) :
    (({} : Disguise).after ranges before).segment.isSome = true := by
  rw [List.map_append, Kind.run_append] at hrun
  obtain ⟨inside, hbefore, hrest⟩ := Option.bind_eq_some_iff.mp hrun
  have hnotes := inStep_after ranges (d := {}) ⟨rfl, rfl⟩ hbefore
  -- the machine takes the token, so it stands inside
  cases inside with
  | true => exact hnotes.segment
  | false =>
    rw [List.map_cons, Kind.run_cons, ht] at hrest
    cases hrest

end Disguise

/-- **The grammar of the token stream.** The kinds of the tokens are a run of the
machine with two states. No two neighbours are of one kind that is joined. Closing
tags hold at most one line break, and behind one without any stands no line feed.
Opening tags are spelt as their kinds demand.

Hence no closing tag and nothing in a segment is ever disguised in a style of its
own, and what is put behind the disguised tokens is a closing tag in the style of the
open segment if the machine ends inside, and nothing otherwise. -/
theorem tokenize_grammar (shortTags : Bool) (s : Text) :
    let tokens := tokenize shortTags s
    ∃ inside, Kind.run false (tokens.map (·.kind)) = some inside ∧
      (∀ before t u after, tokens = before ++ t :: u :: after →
        t.kind ∈ [.inlineHtml, .code, .comment, .other] → t.kind ≠ u.kind) ∧
      (∀ t ∈ tokens, t.kind = .closeTag →
        t.text = "?>".toList ∨ t.text = "?>\n".toList ∨ t.text = "?>\r\n".toList) ∧
      (∀ before t u after, tokens = before ++ t :: u :: after → t.kind = .closeTag →
        t.text = "?>".toList → u.kind = .inlineHtml → u.text.head? ≠ some '\n') ∧
      (∀ t ∈ tokens, t.kind = .openTagWithEcho → t.text = "<?=".toList) ∧
      (∀ t ∈ tokens, t.kind = .openTag →
        t.text.map Char.toLower = "<?php".toList ∨
          (shortTags = true ∧ t.text = "<?".toList)) ∧
      ∀ k ranges,
        (∀ before t after, tokens = before ++ t :: after →
          t.kind ∈ [.closeTag, .code, .comment, .other] →
          ∃ style, (({} : Disguise).after ranges before).segment = some style) ∧
        (inside = true → ∃ style, (({} : Disguise).after ranges tokens).segment = some style ∧
          disguise k ranges tokens =
            Disguise.shown k ranges {} tokens ++ ("?>".toList ++ k.wrapEnd style)) ∧
        (inside = false → disguise k ranges tokens = Disguise.shown k ranges {} tokens) := by
  intro tokens
  obtain ⟨inside, hrun⟩ := tokenize_run shortTags s
  -- neighbours in the list are apart, as the chain law says of any two
  have hapart : ∀ {before t u after}, tokens = before ++ t :: u :: after →
      Piece.Apart ⟨t.kind, t.text⟩ ⟨u.kind, u.text⟩ := by
    intro before t u after h
    have hchain := tokenize_apart shortTags s
    rw [show tokenize shortTags s = _ from h] at hchain
    have hpair := (List.isChain_append.mp hchain).2.1
    exact (List.isChain_cons_cons.mp hpair).1
  refine ⟨inside, hrun, ?_, ?_, ?_, ?_, ?_, ?_⟩
  · -- two neighbours of one kind would have been merged
    intro before t u after h hkind heq
    have hmerge := (hapart h).kinds heq
    simp only [List.mem_cons, List.not_mem_nil, or_false] at hkind
    rcases hkind with hkind | hkind | hkind | hkind <;> rw [hkind] at hmerge <;> cases hmerge
  · -- the tags of a segment are spelt as their kinds demand
    intro t ht hkind
    simpa [Piece.closeTags] using closeTag_text ht hkind
  · intro before t u after h hclose hbare hmarkup
    exact (hapart h).feed hclose hbare hmarkup
  · intro t ht hkind
    exact openTagWithEcho_spelling ht hkind
  · intro t ht hkind
    exact openTag_spelling ht hkind
  · -- the disguise walks in step with the machine, so that its notes say what the machine does
    intro k ranges
    have hfinal := Disguise.inStep_after ranges (d := {}) ⟨rfl, rfl⟩ hrun
    have hshown : disguise k ranges tokens = Disguise.shown k ranges {} tokens ++
        (({} : Disguise).after ranges tokens).finish k ranges :=
      Disguise.run_eq_shown k ranges {} tokens
    refine ⟨?_, ?_, ?_⟩
    · -- a token that may stand only in a segment finds one open
      intro before t after h hkind
      rw [show tokenize shortTags s = _ from h] at hrun
      refine Option.isSome_iff_exists.mp (Disguise.isSome_segment_of_inside hrun ?_)
      simp only [List.mem_cons, List.not_mem_nil, or_false] at hkind
      rcases hkind with hkind | hkind | hkind | hkind <;> rw [hkind] <;> rfl
    · -- a segment is open at the end: its closing tag is supplied, and its comment ends
      rintro rfl
      obtain ⟨style, hstyle⟩ := Option.isSome_iff_exists.mp hfinal.segment
      refine ⟨style, hstyle, ?_⟩
      rw [hshown, Disguise.finish, if_pos hfinal.unclosed, Disguise.style, hstyle,
        Option.getD_some]
      rfl
    · -- no segment is open at the end: nothing is supplied
      rintro rfl
      rw [hshown, Disguise.finish, hfinal.unclosed, if_neg Bool.false_ne_true, List.append_nil]

/-- A template with a line break of its own behind the one that its closing tag takes,
and a segment that is left open. -/
theorem tokenize_grammar_unclosed :
    let tokens := tokenize false "<p><?PHP f(); ?>\n\n<?= 1".toList
    tokens = [⟨.inlineHtml, "<p>".toList, 0⟩, ⟨.openTag, "<?PHP".toList, 3⟩,
        ⟨.code, " f(); ".toList, 8⟩, ⟨.closeTag, "?>\n".toList, 14⟩,
        ⟨.inlineHtml, "\n".toList, 17⟩, ⟨.openTagWithEcho, "<?=".toList, 18⟩,
        ⟨.code, " 1".toList, 21⟩] ∧
      (∃ style, (({} : Disguise).after [] (tokens.take 6)).segment = some style) ∧
      ∃ style, disguise Codec.usual [] tokens =
        Disguise.shown Codec.usual [] {} tokens ++
          ("?>".toList ++ Codec.usual.wrapEnd style) := by
  intro tokens
  have htokens : tokens = [⟨.inlineHtml, "<p>".toList, 0⟩, ⟨.openTag, "<?PHP".toList, 3⟩,
      ⟨.code, " f(); ".toList, 8⟩, ⟨.closeTag, "?>\n".toList, 14⟩,
      ⟨.inlineHtml, "\n".toList, 17⟩, ⟨.openTagWithEcho, "<?=".toList, 18⟩,
      ⟨.code, " 1".toList, 21⟩] := by
    decide +kernel
  obtain ⟨inside, hrun, -, -, -, -, -, hdisguise⟩ :=
    tokenize_grammar false "<p><?PHP f(); ?>\n\n<?= 1".toList
  obtain ⟨hsegment, hinside, -⟩ := hdisguise Codec.usual []
  have hends : inside = true := by
    rw [show tokenize false _ = _ from htokens] at hrun
    exact (Option.some.inj hrun).symm
  refine ⟨htokens, ?_, ?_⟩
  · refine hsegment (tokens.take 6) ⟨.code, " 1".toList, 21⟩ [] ?_ (by decide)
    rw [htokens]
    exact htokens
  · obtain ⟨style, -, hstyle⟩ := hinside hends
    exact ⟨style, hstyle⟩

end TemplateTidy
