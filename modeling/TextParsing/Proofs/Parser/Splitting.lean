import TextParsing.Parser.Literal
import TextParsing.Proofs.Parser.Combinators
import TextParsing.Proofs.Parser.UpTo
import TextParsing.Proofs.Text.Occurrences

/-!
# Splitting a text at a marker

Text up to a marker, and then the marker: repeated, this splits a text at the successive occurrences of
the marker.  The items of the repetition are the pieces in front of the occurrences, and its rest is the
piece behind the last one:

    marker ≠ [] → ∃ places firsts rest, Successive marker input.text 0 places ∧
      rounds (delimited marker) input = some (firsts.map ([·, marker]), rest) ∧
      firsts ++ [rest.text] = pieces marker.length input.text 0 places           (rounds_delimited)

The repetition ends with a failure that leaves what it has taken up to the end of the text, or with
nothing left, if the text ends with the marker.
-/

namespace TextParsing

namespace Text

variable {marker s : Text} {j : Nat}

theorem not_occursAt_of_lt_firstAt (h : j < firstAt marker s) : ¬ OccursAt marker s j := by
  intro hj
  have hle : firstAt marker (s.take j ++ s.drop j) ≤ (s.take j).length := firstAt_le hj
  rw [List.take_append_drop, List.length_take] at hle
  omega

/-- If the marker does not stand at the first place, it stands nowhere. -/
theorem not_occursAt (hne : marker ≠ []) (h : ¬ OccursAt marker s (firstAt marker s)) :
    ¬ OccursAt marker s j := by
  intro hj
  have hend : s.drop (firstAt marker s) = [] := (firstAt_stops marker s).resolve_right h
  apply not_occursAt_of_lt_firstAt _ hj
  have hle := hj.add_length_le hne
  have hpos := List.length_pos_iff.mpr hne
  have := List.drop_eq_nil_iff.mp hend
  omega

end Text

namespace Parser

open Text

variable {marker : Text} {cursor : Input}

/-- Consumes the text before the first occurrence of the marker, and the marker. -/
def delimited (marker : Text) : Parser (List Text) := sequence [upTo marker, literal marker]

theorem delimited_of_occursAt (h : OccursAt marker cursor.text (firstAt marker cursor.text)) :
    delimited marker cursor =
      some (.success [cursor.text.take (firstAt marker cursor.text), marker]
        (cursor.drop (firstAt marker cursor.text + marker.length))) :=
  sequence_of_both (upTo_eq marker cursor) (literal_eq_success_iff.mpr ⟨rfl, h.drop_eq⟩)

theorem delimited_of_not_occursAt
    (h : ¬ OccursAt marker cursor.text (firstAt marker cursor.text)) :
    delimited marker cursor = some (.failure ⟨.sequenceBroken, cursor.text⟩) :=
  sequence_of_second_failure (upTo_eq marker cursor) (congrArg some (if_neg h))

/-- From some place on, the rounds are the pieces in front of the occurrences, and what they leave is
the last piece. -/
theorem rounds_delimited (hne : marker ≠ []) {s : Text} {start : Nat}
    (htext : cursor.text = s.drop start) :
    ∃ places firsts rest, Successive marker s start places ∧
      rounds (delimited marker) cursor = some (firsts.map ([·, marker]), rest) ∧
      firsts ++ [rest.text] = pieces marker.length s start places := by
  generalize hn : cursor.length = n
  induction n using Nat.strongRecOn generalizing cursor start with
  | ind n ih =>
    by_cases hfound : OccursAt marker cursor.text (firstAt marker cursor.text)
    · -- the first occurrence in what is left is the next place, and the round consumes it
      have hround := delimited_of_occursAt hfound
      have hbefore : ∀ j < firstAt marker cursor.text, ¬ OccursAt marker cursor.text j :=
        fun _ => not_occursAt_of_lt_firstAt
      generalize firstAt marker cursor.text = i at hfound hround hbefore
      rw [htext] at hbefore
      have hlt : (cursor.drop (i + marker.length)).length < cursor.length := by
        have hle := hfound.add_length_le hne
        have hpos := List.length_pos_iff.mpr hne
        rw [← cursor.length_eq] at hle
        show cursor.length - (i + marker.length) < cursor.length
        omega
      have hrest : (cursor.drop (i + marker.length)).text =
          s.drop (start + i + marker.length) := by
        rw [Input.text_drop, htext, List.drop_drop, Nat.add_assoc]
      obtain ⟨places, firsts, rest, hplaces, hrounds, hpieces⟩ := ih _ (hn ▸ hlt) hrest rfl
      refine ⟨(start + i) :: places, cursor.text.take i :: firsts, rest, ?_, ?_, ?_⟩
      · refine .next (Nat.le_add_right _ _) ?_ ?_ hplaces
        · exact occursAt_drop.mp (htext ▸ hfound)
        · intro j hle hj
          obtain ⟨k, rfl⟩ := Nat.exists_eq_add_of_le hle
          exact mt occursAt_drop.mpr (hbefore k (by omega))
      · rw [rounds_of_success hround hlt, hrounds]
        rfl
      · rw [pieces, ← hpieces, Nat.add_sub_cancel_left, ← htext, List.cons_append]
    · -- the round takes everything and is undone
      refine ⟨[], [], cursor, .stop ?_, ?_, ?_⟩
      · intro j hle
        obtain ⟨k, rfl⟩ := Nat.exists_eq_add_of_le hle
        exact mt occursAt_drop.mpr (htext ▸ not_occursAt hne hfound)
      · exact rounds_of_failure (delimited_of_not_occursAt hfound)
      · rw [htext]
        rfl

/-- Text up to a marker and then the marker, any number of times, splits every input at the successive
occurrences of the marker that do not overlap, of which there is one list.  The first values of the
items, and the rest, are the pieces between them; with the marker between the pieces they are the input.
There are as many items as occurrences, and the rest does not contain the marker. -/
theorem delimited_splits (hne : marker ≠ []) (input : Input) :
    ∃ places firsts rest,
      many (sequence [upTo marker, literal marker]) input =
        some (.success (firsts.map ([·, marker])) rest) ∧
      Successive marker input.text 0 places ∧
      (∀ places', Successive marker input.text 0 places' → places' = places) ∧
      firsts ++ [rest.text] = pieces marker.length input.text 0 places ∧
      marker.intercalate (firsts ++ [rest.text]) = input.text ∧
      firsts.length = places.length ∧
      ¬ marker <:+: rest.text := by
  have htext : input.text = input.text.drop 0 := rfl
  obtain ⟨places, firsts, rest, hplaces, hrounds, hpieces⟩ := rounds_delimited hne htext
  refine ⟨places, firsts, rest, repeatAtLeast_of_rounds 0 hrounds, hplaces,
    fun places' h => hplaces.unique h, hpieces, ?_, ?_, ?_⟩
  · rw [hpieces]
    exact hplaces.intercalate_pieces
  · have hlength := congrArg List.length hpieces
    rw [length_pieces, List.length_append] at hlength
    exact Nat.succ.inj hlength
  · refine hplaces.not_infix_getLast rest.text ?_
    rw [← hpieces, List.getLast?_concat]
    rfl

/-- A marker that overlaps itself: of three occurrences, the one in the middle is part of the first and
does not count. -/
theorem delimited_splits_overlap :
    ∃ firsts rest, many (sequence [upTo "éaé".toList, literal "éaé".toList])
        (.ofText "éaéaéaéx".toList) = some (.success (firsts.map ([·, "éaé".toList])) rest) ∧
      firsts ++ [rest.text] = [[], "a".toList, "x".toList] := by
  have hne : "éaé".toList ≠ [] := by decide
  obtain ⟨places, firsts, rest, hmany, -, hunique, hpieces, -⟩ :=
    delimited_splits hne (.ofText "éaéaéaéx".toList)
  have hplaces : Successive "éaé".toList "éaéaéaéx".toList 0 [0, 4] := by
    refine .next (Nat.le_refl 0) (by decide) (by omega) (.next (by decide) (by decide) ?_ (.stop ?_))
    · intro j hle hlt
      obtain rfl : j = 3 := Nat.le_antisymm (Nat.le_of_lt_succ hlt) hle
      decide
    · intro j hle hj
      have hend : j + 3 ≤ 8 := hj.add_length_le hne
      have hstart : 7 ≤ j := hle
      omega
  obtain rfl := hunique _ hplaces
  exact ⟨firsts, rest, hmany, hpieces⟩

end Parser

end TextParsing
