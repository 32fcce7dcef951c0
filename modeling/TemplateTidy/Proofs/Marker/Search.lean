import TemplateTidy.Proofs.Segment.Plain

/-!
# The search for a nonce ends

A codec is looked for by drawing until one has no fragment in the text. Told like this
the search counts nothing and might go on for ever: `Codec.Ends` is that search, as the
relation between where it stands and where it ends. It ends for every text, whatever is
drawn, because draws that differ cannot all collide; it ends in one way only; and
`Codec.forText` is its end, after no more draws than the patience for the text and one.

The codec at the end leaves the text alone: the text holds no fragment of it, hence none
of its sentinels, each of which is built around a fragment, and is decoded to itself.

Main result: `Codec.forText_settles`.
-/

namespace TemplateTidy

namespace Codec

/-! ## The search as a relation -/

/-- From the codec in hand, with a draw to be made next, the search ends with a codec and
the draw to be made after it. It takes a codec that does not collide, and draws another
one in place of a codec that does. -/
inductive Ends (draws : Draws) (s : Text) : Codec → Nat → Codec × Nat → Prop where
  | here {k : Codec} {draw : Nat} (hfree : k.collides s = false) : Ends draws s k draw (k, draw)
  | later {k : Codec} {draw : Nat} {r : Codec × Nat} (htaken : k.collides s = true)
      (hrest : Ends draws s (drawn draws draw) (draw + 1) r) : Ends draws s k draw r

section

variable {draws : Draws} {s : Text}

/-- The search has one end. -/
theorem Ends.unique {k : Codec} {draw : Nat} {r r' : Codec × Nat} (h : Ends draws s k draw r)
    (h' : Ends draws s k draw r') : r = r' := by
  induction h with
  | here hfree =>
    cases h' with
    | here => rfl
    | later htaken => exact absurd (hfree.symm.trans htaken) Bool.false_ne_true
  | later htaken hrest ih =>
    cases h' with
    | here hfree => exact absurd (hfree.symm.trans htaken) Bool.false_ne_true
    | later _ hrest' => exact ih hrest'

/-- The search that counts its draws is the one that does not, as long as a draw without
a collision is within reach. -/
theorem ends_search {fuel i : Nat}
    (h : ∃ j ≤ fuel, (drawn draws (i + j)).collides s = false) :
    Ends draws s (drawn draws i) (i + 1) (search draws s fuel i) := by
  obtain ⟨j, hj, hfree⟩ := h
  induction fuel generalizing i j with
  | zero =>
    -- no draw is left but the one that is taken without a test
    obtain rfl : j = 0 := Nat.le_zero.mp hj
    exact .here hfree
  | succ fuel ih =>
    rw [search]
    split
    · rename_i htaken
      refine .later htaken ?_
      cases j with
      | zero =>
        rw [Nat.add_zero, htaken] at hfree
        exact Bool.noConfusion hfree
      | succ j =>
        have hreach : (drawn draws (i + 1 + j)).collides s = false := by
          rw [← hfree]
          congr 2
          omega
        exact ih j (by omega) hreach
    · rename_i hfree
      exact .here (Bool.eq_false_iff.mpr hfree)

/-- The search makes one draw more than it counts at most. -/
theorem snd_search_le (fuel i : Nat) : (search draws s fuel i).2 ≤ i + fuel + 1 := by
  induction fuel generalizing i with
  | zero => exact Nat.le_refl (i + 1)
  | succ fuel ih =>
    rw [search]
    split
    · have hrest := ih (i + 1)
      omega
    · show i + 1 ≤ i + (fuel + 1) + 1
      omega

end

/-- The choice of a codec for a text is where the search ends. -/
theorem ends_forText (draws : Draws) (draw : Nat) (s : Text) :
    Ends draws s usual draw (forText draws draw s) := by
  rw [forText]
  split
  · rename_i htaken
    exact .later htaken (ends_search (exists_not_collides draws draw s))
  · rename_i hfree
    exact .here (Bool.eq_false_iff.mpr hfree)

/-! ## What the text does not hold -/

/-- Every sentinel is built around a fragment. -/
theorem fragment_of_mem_sentinels {k : Codec} {t : Text} (ht : t ∈ k.sentinels) :
    '%' :: k.nonce <:+: t ∨ k.nonce ++ ['%'] <:+: t := by
  have hend : '%' :: k.nonce <:+: k.endMark := ⟨[], "-comment-end#".toList, rfl⟩
  have hstart : '%' :: k.nonce <:+: k.startMark := ⟨[], "-comment-start#".toList, rfl⟩
  have hquote : ∀ rest : Text, k.nonce ++ ['%'] <:+: k.nonce ++ '%' :: rest := by
    intro rest
    exact ⟨[], rest, by rw [List.nil_append, List.append_assoc, List.singleton_append]⟩
  simp only [sentinels, List.mem_cons, List.not_mem_nil, or_false] at ht
  -- the two quotes, then the terminators, then the wrappers
  rcases ht with rfl | rfl | rfl | rfl | rfl | rfl | rfl | rfl | rfl
  · exact .inr (hquote "quote#1".toList)
  · exact .inr (hquote "quote~2".toList)
  · exact .inl (hend.trans ⟨['-'], "->".toList, rfl⟩)
  · exact .inl (hend.trans ⟨['*'], "/".toList, rfl⟩)
  · exact .inl ⟨['<'], "-end-tag#/".toList, rfl⟩
  · exact .inl (hstart.trans (List.suffix_append _ _).isInfix)
  · exact .inl (hend.trans (List.prefix_append _ _).isInfix)
  · exact .inl (hstart.trans (List.suffix_append _ _).isInfix)
  · exact .inl (hend.trans (List.prefix_append _ _).isInfix)

/-- A text that holds no fragment holds no sentinel. -/
theorem not_infix_of_mem_sentinels {k : Codec} {s t : Text} (hs : k.collides s = false)
    (ht : t ∈ k.sentinels) : ¬ t <:+: s := by
  intro hinfix
  obtain ⟨hbefore, hbehind⟩ := (k.collides_eq_false_iff s).mp hs
  rcases fragment_of_mem_sentinels ht with hfragment | hfragment
  · exact hbefore (hfragment.trans hinfix)
  · exact hbehind (hfragment.trans hinfix)

/-- **The choice of a nonce ends, with a codec that leaves the text alone.** For every text
and all draws that differ from each other, drawing until nothing collides ends with the
codec of `forText` and in no other way, after at most one draw more than the patience for
the text. The text holds neither of the codec's fragments and none of its sentinels, and
is decoded to itself. -/
theorem forText_settles (draws : Draws) (draw : Nat) (s : Text) :
    (∀ r, Ends draws s usual draw r ↔ r = forText draws draw s) ∧
      (forText draws draw s).2 ≤ draw + (patience s + 1) ∧
      let k := (forText draws draw s).1
      ¬ '%' :: k.nonce <:+: s ∧ ¬ k.nonce ++ ['%'] <:+: s ∧
        (∀ t ∈ k.sentinels, ¬ t <:+: s) ∧ k.decode s = s := by
  have hends := ends_forText draws draw s
  have hfree := collides_forText draws draw s
  obtain ⟨hbefore, hbehind⟩ := (collides_eq_false_iff _ s).mp hfree
  refine ⟨fun r => ⟨fun hr => hr.unique hends, fun hr => hr ▸ hends⟩, ?_, hbefore, hbehind,
    fun t ht => not_infix_of_mem_sentinels hfree ht,
    decode_eq_self (branded_forText draws draw s) hfree⟩
  rw [forText]
  split
  · exact snd_search_le (patience s) draw
  · exact Nat.le_add_right draw (patience s + 1)

/-- Fragments of the usual codec and of the first draw are in the way. -/
example :
    let r := forText Draws.counter 0 "100%pcs and pcs00000000%".toList
    r.1.nonce = "pcs00000001".toList ∧ r.2 = 2 := by
  decide +kernel

end Codec

end TemplateTidy
