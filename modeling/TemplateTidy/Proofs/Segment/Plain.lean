import TemplateTidy.Proofs.Segment.Pipeline
import TemplateTidy.Proofs.Segment.Whole
import TemplateTidy.Proofs.Marker.Leak

/-!
# Templates without code

A template that is all markup is laid out as if the segments were never hidden and
shown again.

* It is not one code segment, since such a template has an opening tag.
* There is nothing to hide, so the formatter gets the template as it is
  (`disguise_inlineHtml`).
* The codec has no fragment in the template. The formatter drops white space next to
  equals signs and brackets only, and these occur in no fragment, so that none comes
  into the output (`Tracks.run`, `Codec.collides_formatMarkup`).
* Decoding changes nothing in a text without fragments (`Codec.decode_eq_self`).

Main result: `beautify_of_inlineHtml`.
-/

namespace TemplateTidy

open Edit (Trail)

/-! ## The way in -/

/-- Markup is not hidden, and nothing is put behind it. -/
theorem Disguise.run_inlineHtml (k : Codec) (ranges : List ContextRange) {tokens : List Token}
    (h : ∀ t ∈ tokens, t.kind = .inlineHtml) {d : Disguise} (hd : d.unclosed = false) :
    d.run k ranges tokens = tokens.flatMap (·.text) := by
  induction tokens generalizing d with
  | nil =>
    rw [run, finish, hd, if_neg Bool.false_ne_true]
    rfl
  | cons t tokens ih =>
    obtain ⟨ht, htokens⟩ := List.forall_mem_cons.mp h
    -- markup closes nothing that a segment has left open
    have hnext : (d.next ranges t).unclosed = false := by
      rw [next, ht]
    have hide_eq : d.hide k ranges t = t.text := by
      rw [hide, ht]
    rw [run, hide_eq, ih htokens hnext, List.flatMap_cons]

/-- A template without code is its own disguise. -/
theorem disguise_inlineHtml (k : Codec) (ranges : List ContextRange) {shortTags : Bool} {s : Text}
    (h : ∀ t ∈ tokenize shortTags s, t.kind = .inlineHtml) :
    disguise k ranges (tokenize shortTags s) = s := by
  rw [disguise, Disguise.run_inlineHtml k ranges h rfl]
  exact tokenize_text shortTags s

/-- A template without code is handed to the formatter as it is. -/
theorem exists_prepare_inlineHtml (k : Codec) {shortTags : Bool} {s : Text}
    (h : ∀ t ∈ tokenize shortTags s, t.kind = .inlineHtml)
    (hfound : (ContextRange.find ContextRange.codeElements (tokenize shortTags s)).isOk = true) :
    ∃ p, prepare k shortTags s = .ok p ∧ p.disguised = s := by
  cases hfind : ContextRange.find ContextRange.codeElements (tokenize shortTags s) with
  | error fault =>
    rw [hfind] at hfound
    cases hfound
  | ok ranges =>
    let tokens := tokenize shortTags s
    refine ⟨⟨k, tokens, ranges, disguise k ranges tokens⟩, ?_, disguise_inlineHtml k ranges h⟩
    unfold prepare
    dsimp only
    rw [hfind]
    rfl

/-- A template without code is not one code segment. -/
theorem isWholeCodeBlock_inlineHtml {shortTags : Bool} {s : Text}
    (h : ∀ t ∈ tokenize shortTags s, t.kind = .inlineHtml) : isWholeCodeBlock s = false := by
  rw [Bool.eq_false_iff]
  intro hwhole
  obtain ⟨pad, body, n, rfl, hpad, hopen, -, hcloses⟩ := exists_of_isWholeCodeBlock hwhole
  obtain ⟨lead, opener, segment, tail, htokens, hkind, -⟩ :=
    tokens_of_openTag shortTags hpad hopen hcloses
  -- its opening tag is a token, and no markup
  have hmem : opener ∈ tokenize shortTags (pad ++ body) := by
    rw [htokens]
    exact List.mem_append_right _ (List.mem_cons_self ..)
  rw [h opener hmem] at hkind
  exact Bool.noConfusion hkind

/-! ## The way out -/

/-- Sound edits, one after the other: what they print echoes their source. -/
theorem Tracks.run {cut : Text → Prop} {t : Trail} {s s' : Text} (h : Tracks t s s')
    {es : List Edit} (hes : Edit.AllSound cut t es) :
    Tracks (t.run es) (s ++ Edit.source es) (s' ++ Edit.printed es) := by
  induction es generalizing t s s' with
  | nil => simpa using h
  | cons e es ih =>
    obtain ⟨he, hes⟩ := hes
    cases e with
    | drop c =>
      have hrest := ih (h.drop c) hes
      rw [List.append_assoc] at hrest
      exact hrest
    | keep pad c =>
      have hrest := ih (h.keep he) hes
      rw [List.append_assoc, List.append_assoc, List.append_assoc] at hrest
      rw [Edit.printed_keep, Edit.source_keep]
      exact hrest

namespace Codec

/-- Typesetting brings no fragment into a text. -/
theorem collides_printed {k : Codec} {cut : Text → Prop} {chunks : List Chunk} {cells : List Cell}
    {rest : Text} (h : Typeset cut chunks cells rest)
    (hs : k.collides (Chunk.textOf chunks) = false) : k.collides (Cell.printed cells) = false := by
  have htracks := Tracks.nil.run h.sound_edits
  rw [List.nil_append, List.nil_append, h.source_edits, h.printed_edits] at htracks
  exact htracks.collides hs

/-- **The formatter brings no fragment into a text.** -/
theorem collides_formatMarkup {k : Codec} {o : MarkupOptions} (ho : o.IndentsBlank) {s out : Text}
    (hs : k.collides s = false) (hout : formatMarkup o s = .ok out) : k.collides out = false := by
  rcases formatMarkup_spec ho hout with ⟨-, rfl⟩ | ⟨cells, rest, feed, hfeed, rfl, htypeset⟩
  · exact collides_eq_false_of_infix List.nil_infix hs
  · -- what is typeset is the text, perhaps with a bracket that closes its last tag
    obtain ⟨extra, htext, hextra⟩ := Item.textOf_chunksOf o (Item.follows_scan o (.inl rfl))
    rw [Item.rawOf_scan] at htext
    have hsource : k.collides (Chunk.textOf (Item.chunksOf o (Item.scan o s))) = false := by
      rw [htext]
      refine collides_append_separators hs fun c hc => ?_
      rcases hextra with rfl | rfl
      · cases hc
      · rw [List.mem_singleton.mp hc]
        decide
    -- and a line break may stand at the end
    exact collides_append_separators (collides_printed htypeset hsource) fun c hc =>
      isFragment_of_isBlank (hfeed.of_mem hc)

/-- A text without fragments is decoded to itself. -/
theorem decode_eq_self {k : Codec} (hk : k.Branded) {s : Text} (hs : k.collides s = false) :
    k.decode s = s := by
  have hdecode := decode_flat_fresh hk (Segment.fresh_map_plain s) (Symbol.sense_map_plain s) hs
  rwa [Symbol.flat_map_plain] at hdecode

end Codec

/-! ## The result -/

/-- **A template without code is laid out as plain markup**, with the result or the failure
of the formatter, wherever the elements that hold code can be found. What the formatter
gives is decoded to itself. -/
theorem beautify_of_inlineHtml (draws : Draws) (draw : Nat) (r : Record) (shortTags : Bool)
    (s : Text) (hmarkup : ∀ t ∈ tokenize shortTags s, t.kind = .inlineHtml)
    (hfound : (ContextRange.find ContextRange.codeElements (tokenize shortTags s)).isOk = true) :
    (beautify draws draw (.ofRecord r) shortTags s).result =
        (formatMarkup (.ofRecord r) s).mapError .indentation ∧
      ∀ out, formatMarkup (.ofRecord r) s = .ok out →
        (Codec.forText draws draw s).1.decode out = out := by
  have hdecode : ∀ out, formatMarkup (.ofRecord r) s = .ok out →
      (Codec.forText draws draw s).1.decode out = out := by
    intro out hout
    have hfree : (Codec.forText draws draw s).1.collides out = false :=
      Codec.collides_formatMarkup (MarkupOptions.indentsBlank_ofRecord r)
        (Codec.collides_forText draws draw s) hout
    exact Codec.decode_eq_self (Codec.branded_forText draws draw s) hfree
  refine ⟨?_, hdecode⟩
  rw [beautify, beautifyWith, isWholeCodeBlock_inlineHtml hmarkup, if_neg Bool.false_ne_true]
  dsimp only
  generalize (Codec.forText draws draw s).1 = k at hdecode ⊢
  obtain ⟨p, hprepare, hdisguised⟩ := exists_prepare_inlineHtml k hmarkup hfound
  rw [hprepare]
  dsimp only
  rw [hdisguised, Formatter.markup]
  cases hformat : formatMarkup (.ofRecord r) s with
  | error fault => rfl
  | ok out => exact congrArg Except.ok (hdecode out hformat)

/-- Markup with letters of the usual nonce on both sides of white space that is dropped. -/
theorem beautify_of_inlineHtml_attribute :
    let s := "<a title = pcs  >100%</a>".toList
    (∀ t ∈ tokenize false s, t.kind = .inlineHtml) ∧
      (beautify Draws.counter 0 (.ofRecord []) false s).result =
        .ok "<a title=pcs>100%</a>".toList ∧
      (Codec.forText Draws.counter 0 s).1.decode "<a title=pcs>100%</a>".toList =
        "<a title=pcs>100%</a>".toList := by
  intro s
  have hmarkup : ∀ t ∈ tokenize false s, t.kind = .inlineHtml := by decide +kernel
  have hfound : (ContextRange.find ContextRange.codeElements (tokenize false s)).isOk = true := by
    decide +kernel
  have hformat : formatMarkup (.ofRecord []) s = .ok "<a title=pcs>100%</a>".toList := by
    decide +kernel
  obtain ⟨hresult, hdecode⟩ := beautify_of_inlineHtml Draws.counter 0 [] false s hmarkup hfound
  rw [hformat] at hresult
  exact ⟨hmarkup, hresult, hdecode _ hformat⟩

end TemplateTidy
