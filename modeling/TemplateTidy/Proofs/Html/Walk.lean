import TemplateTidy.Html.TagEvent
import TemplateTidy.Proofs.Marker.Decode
import TemplateTidy.Proofs.Markup.Scan

/-!
# What a walk over a document reads

A walk goes from one place of the document to a later one, and every tag it tells of
stands at its place: a start tag where a bracket and the name of the element are
written, an end tag where `</` is written. A tag that closes itself is told of as two
tags at one place.

Behind the start tag of a script or a style sheet the walk is inside that element, and
the next tag that it tells of is the element's end tag. So the elements whose content is
passed over never overlap, whatever is unfinished or malformed on the way.

* What may stand at one place is told by `Construct.Stands`, with one lemma for each
  kind of construct (`Construct.stands_constructAt`).
* The walk as a whole is a sequence of such places (`Reads`), through both of its parts.

Main result: `reads_tagEvents`.
-/

namespace TemplateTidy.Html

open Recogniser

/-! ## One place -/

/-- What a construct at the front of the text `s` may be, while the content of the element
`raw` is passed over. -/
inductive Construct.Stands (s : Text) : Option Text → Construct → Prop where
  /-- No tag: the walk stays where it is, in an element or outside. -/
  | nothing (raw : Option Text) (n : Nat) : Stands s raw (.passed [] raw n)
  /-- An end tag leaves the element that the walk is in. -/
  | closing {raw : Option Text} {name : Text} (hwritten : "</".toList <+: s)
      (hraw : raw = none ∨ raw = some name) (n : Nat) :
      Stands s raw (.passed [(true, name)] none n)
  /-- A start tag is read outside of such elements, and may enter one. -/
  | opening {name : Text} (hwritten : '<' :: name <+: s) (n : Nat) :
      Stands s none (.passed [(false, Text.lower name)]
        (if rawElements.contains (Text.lower name) then some (Text.lower name) else none) n)
  | selfClosing {name : Text} (hwritten : '<' :: name <+: s) (n : Nat) :
      Stands s none (.passed [(false, Text.lower name), (true, Text.lower name)] none n)
  | unfinished (raw : Option Text) : Stands s raw .unfinished
  | stop (raw : Option Text) (n : Nat) : Stands s raw (.stop n)

namespace Construct

/-- Something that is read up to a mark holds no tag. -/
theorem stands_upTo (s : Text) (head : Nat) (rest : Option Nat) :
    (Construct.upTo head rest).Stands s none := by
  cases rest with
  | none => exact .unfinished none
  | some n => exact .nothing none _

/-- A reference is no tag. -/
theorem stands_reference (s t : Text) : (reference t).Stands s none := by
  unfold reference
  split
  · split
    · exact .nothing none _
    · exact .stop none _
  · split
    · split
      · exact .nothing none _
      · exact .stop none _
    · exact .nothing none _
  · exact .stop none _

/-- The name of a tag stands behind its bracket. -/
theorem stands_startTag {letter : Char} {rest : Text} {x : Construct}
    (h : startTag letter rest = .ok x) : x.Stands ('<' :: letter :: rest) none := by
  have hwritten : '<' :: (opening letter rest).name <+: '<' :: letter :: rest := by
    show '<' :: letter :: rest.takeWhile (!endsTagName ·) <+: '<' :: letter :: rest
    rw [List.cons_prefix_cons, List.cons_prefix_cons]
    exact ⟨rfl, rfl, List.takeWhile_prefix _⟩
  unfold startTag at h
  dsimp only at h
  split at h
  · -- a tag without an end names nothing
    obtain rfl := Except.ok.inj h
    exact .unfinished none
  · split at h
    · cases h
    · obtain rfl := Except.ok.inj h
      unfold Opening.construct
      dsimp only
      split
      · exact .selfClosing hwritten _
      · exact .opening hwritten _
      · exact .nothing none _
      · exact .unfinished none

/-- An end tag stands behind its two characters. -/
theorem stands_endTag {s : Text} (hs : "</".toList <+: s) : (endTag s).Stands s none := by
  unfold endTag
  split
  · exact .unfinished none
  · split
    · exact .closing hs (.inl rfl) _
    · exact .nothing none _

/-- In an element only its own end tag is told of. -/
theorem stands_rawEndTag (raw : Text) {s : Text} (hs : "</".toList <+: s) :
    (rawEndTag raw s).Stands s (some raw) := by
  unfold rawEndTag
  split
  · exact .unfinished _
  · split
    · split
      · rename_i hname
        exact .closing hs (.inr (congrArg some hname.symm)) _
      · exact .nothing _ _
    · exact .nothing _ _

/-- A marked section holds no tag. -/
theorem stands_markedSection {s : Text} {x : Construct} (h : markedSection s = .ok x) :
    x.Stands s none := by
  unfold markedSection at h
  dsimp only at h
  split at h
  · obtain rfl := Except.ok.inj h
    exact .unfinished none
  · split at h
    · cases h
    · split at h
      · obtain rfl := Except.ok.inj h
        exact .unfinished none
      · split at h
        · cases h
        · obtain rfl := Except.ok.inj h
          exact stands_upTo _ _ _

/-- **What stands at a bracket**, outside of elements whose content is passed over. -/
theorem stands_bracketed {s : Text} {x : Construct} (h : bracketed s = .ok x) :
    x.Stands s none := by
  unfold bracketed at h
  split at h
  · obtain rfl := Except.ok.inj h
    exact stands_endTag ⟨_, rfl⟩
  · obtain rfl := Except.ok.inj h
    exact stands_upTo _ _ _
  · exact stands_markedSection h
  · obtain rfl := Except.ok.inj h
    exact stands_upTo _ _ _
  · obtain rfl := Except.ok.inj h
    exact stands_upTo _ _ _
  · split at h
    · exact stands_startTag h
    · obtain rfl := Except.ok.inj h
      exact .nothing none _
  · obtain rfl := Except.ok.inj h
    exact .stop none _

/-- **What stands at a place**, be it in an element whose content is passed over. -/
theorem stands_constructAt {raw : Option Text} {s : Text} {x : Construct}
    (hraw : raw.isSome = true → "</".toList <+: s) (h : constructAt raw s = .ok x) :
    x.Stands s raw := by
  unfold constructAt at h
  split at h
  · obtain rfl := Except.ok.inj h
    exact stands_rawEndTag _ (hraw rfl)
  · split at h
    · obtain rfl := Except.ok.inj h
      exact stands_reference _ _
    · exact stands_bracketed h

end Construct

/-- In an element the next place is one where `</` is written. -/
theorem prefix_of_nextPlace? {name s : Text} {i : Nat} (h : nextPlace? (some name) s = some i) :
    "</".toList <+: s.drop i := by
  obtain ⟨⟨j, n⟩, hsearch, rfl⟩ := Option.map_eq_some_iff.mp h
  have hfound := Text.search?_spec hsearch
  rw [endTagOf, andThen] at hfound
  split at hfound
  · rename_i hliteral
    exact Sentinel.prefix_of_literal hliteral
  · cases hfound

/-! ## The walk -/

/-- The tags that may be read from offset `n` of a document on, while the content of `raw`
is passed over. -/
inductive Reads (doc : Text) : Option Text → Nat → List TagEvent → Prop where
  | done (raw : Option Text) (n : Nat) : Reads doc raw n []
  | step {raw next : Option Text} {n m length : Nat} {tags : List (Bool × Text)}
      {events : List TagEvent} (hle : n ≤ m)
      (hstands : (Construct.passed tags next length).Stands (doc.drop m) raw)
      (hlater : Reads doc next (m + 1) events) :
      Reads doc raw n (TagEvent.place m tags ++ events)

/-- What is read from an offset on is read from an earlier one on. -/
theorem Reads.mono {doc : Text} {raw : Option Text} {m n : Nat} {events : List TagEvent}
    (h : Reads doc raw n events) (hle : m ≤ n) : Reads doc raw m events := by
  cases h with
  | done => exact .done raw m
  | step hn hstands hlater => exact .step (Nat.le_trans hle hn) hstands hlater

/-- From any place on, in either part of the walk. -/
theorem reads_walk {doc : Text} {atEnd : Bool} {raw : Option Text} {offset : Nat} {s : Text}
    {events : List TagEvent} (hs : s = doc.drop offset)
    (h : walk atEnd raw offset s = .ok events) : Reads doc raw offset events := by
  -- the recursion of the walk: every case goes on at `here` or later
  fun_induction walk atEnd raw offset s generalizing events with
  | case1 atEnd raw offset s hnone =>
    obtain rfl := Except.ok.inj h
    exact .done raw offset
  | case2 atEnd raw offset s i hplace hrest =>
    obtain rfl := Except.ok.inj h
    exact .done raw offset
  | case3 atEnd raw offset s i hplace c cs hrest here ihPassed ihGivenUp ihAgain =>
    rename_i ihStopped
    have hhere : doc.drop here = c :: cs := by
      rw [← hrest, hs, List.drop_drop]
    have hbehind : ∀ n, doc.drop (here + 1 + n) = cs.drop n := by
      intro n
      rw [← List.drop_drop, ← List.drop_drop, hhere, List.drop_one, List.tail_cons]
    -- within a raw element only end tags are looked for
    have hraw : raw.isSome = true → "</".toList <+: c :: cs := by
      intro hsome
      obtain ⟨name, rfl⟩ := Option.isSome_iff_exists.mp hsome
      rw [← hrest]
      exact prefix_of_nextPlace? hplace
    cases hconstruct : constructAt raw (c :: cs) with
    | error fault =>
      rw [hconstruct] at h
      cases h
    | ok x =>
      rw [hconstruct] at h
      have hstands := Construct.stands_constructAt hraw hconstruct
      rw [← hhere] at hstands
      cases x with
      -- the construct is passed over, and the walk goes on behind it
      | passed tags next n =>
        change (walk atEnd next (here + 1 + (n - 1)) (cs.drop (n - 1)) >>= fun later =>
          pure (TagEvent.place here tags ++ later)) = .ok events at h
        cases hwalk : walk atEnd next (here + 1 + (n - 1)) (cs.drop (n - 1)) with
        | error fault =>
          rw [hwalk] at h
          cases h
        | ok later =>
          rw [hwalk] at h
          obtain rfl := Except.ok.inj h
          have hlater := ihPassed next n (hbehind _).symm hwalk
          exact .step (Nat.le_add_right _ _) hstands (hlater.mono (Nat.le_add_right _ _))
      -- the construct has no end: the walk is done once more, with the end known
      | unfinished =>
        change (if atEnd = true then _ else _) = Except.ok events at h
        split at h
        · -- the end is known: the construct counts as text
          rename_i hend
          exact (ihGivenUp hend (hbehind _).symm h).mono (by omega)
        · rename_i hend
          exact (ihAgain hend hhere.symm h).mono (by omega)
      -- the walk stops here: it is over, or goes on there with the end known
      | stop n =>
        change (if atEnd = true then _ else _) = Except.ok events at h
        split at h
        · obtain rfl := Except.ok.inj h
          exact .done raw offset
        · rename_i hend
          have hdrop : (c :: cs).drop n = doc.drop (here + n) := by
            rw [← hhere, List.drop_drop]
          exact (ihStopped n hend hdrop h).mono (by omega)

/-- **The tags of a document are read at places that follow each other.** -/
theorem reads_tagEvents {doc : Text} {events : List TagEvent} (h : tagEvents doc = .ok events) :
    Reads doc none 0 events :=
  reads_walk rfl h

end TemplateTidy.Html
