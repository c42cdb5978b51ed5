import Mathlib.Data.List.Infix
import TextParsing.Text

/-!
# Occurrences of a marker and the pieces between them

`OccursAt marker s i` says that the marker stands behind the first `i` characters of `s`.  A text is cut
at occurrences that do not overlap, always at the first one behind the one before (`Successive`); there
is only one list of such places.  The pieces between them, with the marker put back, are the text:

    Successive marker s start places →
      marker.intercalate (pieces marker.length s start places) = s.drop start
                                                                   (Successive.intercalate_pieces)
-/

namespace TextParsing.Text

variable {marker s : Text} {start i : Nat} {places : List Nat}

/-- Whether the marker stands behind the first `i` characters. -/
def OccursAt (marker s : Text) (i : Nat) : Prop := marker <+: s.drop i

instance : Decidable (OccursAt marker s i) := inferInstanceAs (Decidable (marker <+: s.drop i))

/-- The places of the occurrences from `start` on, each the first one behind the end of the one before. -/
inductive Successive (marker s : Text) : Nat → List Nat → Prop where
  | stop {start : Nat} (h : ∀ j, start ≤ j → ¬ OccursAt marker s j) : Successive marker s start []
  | next {start i : Nat} {places : List Nat} (hle : start ≤ i) (hi : OccursAt marker s i)
      (hfirst : ∀ j, start ≤ j → j < i → ¬ OccursAt marker s j)
      (hs : Successive marker s (i + marker.length) places) : Successive marker s start (i :: places)

/-- What stands between the places, from `start` on, if so many characters are left out at each. -/
def pieces (width : Nat) (s : Text) : Nat → List Nat → List Text
  | start, [] => [s.drop start]
  | start, i :: places => (s.drop start).take (i - start) :: pieces width s (i + width) places

theorem pieces_ne_nil (width : Nat) (s : Text) (start : Nat) (places : List Nat) :
    pieces width s start places ≠ [] := by
  cases places <;> simp [pieces]

theorem length_pieces (width : Nat) (s : Text) (start : Nat) (places : List Nat) :
    (pieces width s start places).length = places.length + 1 := by
  induction places generalizing start with
  | nil => rfl
  | cons i places ih => rw [pieces, List.length_cons, ih, List.length_cons]

theorem OccursAt.drop_eq (h : OccursAt marker s i) :
    s.drop i = marker ++ s.drop (i + marker.length) := by
  have := List.prefix_iff_eq_append.mp h
  rwa [List.drop_drop, eq_comm] at this

/-- A marker that is not empty stands in front of the end. -/
theorem OccursAt.add_length_le (h : OccursAt marker s i) (hne : marker ≠ []) :
    i + marker.length ≤ s.length := by
  have hle := h.length_le
  have hpos := List.length_pos_iff.mpr hne
  rw [List.length_drop] at hle
  omega

/-- What is left without the characters in front of a place stands behind this place. -/
theorem occursAt_drop {j : Nat} : OccursAt marker (s.drop start) j ↔ OccursAt marker s (start + j) := by
  unfold OccursAt
  rw [List.drop_drop]

theorem infix_drop_iff : marker <:+: s.drop start ↔ ∃ j, start ≤ j ∧ OccursAt marker s j := by
  constructor
  · rintro ⟨lead, tail, h⟩
    refine ⟨start + lead.length, Nat.le_add_right _ _, occursAt_drop.mp ⟨tail, ?_⟩⟩
    rw [← h, List.append_assoc, List.drop_left]
  · rintro ⟨j, hle, h⟩
    obtain ⟨k, rfl⟩ := Nat.exists_eq_add_of_le hle
    exact (occursAt_drop.mpr h).isInfix.trans (List.drop_suffix k _).isInfix

namespace Successive

/-- No other places are the successive ones. -/
theorem unique (h : Successive marker s start places) {places' : List Nat}
    (h' : Successive marker s start places') : places' = places := by
  induction h generalizing places' with
  | stop hstop =>
    cases h' with
    | stop => rfl
    | next hle hi => exact absurd hi (hstop _ hle)
  | @next start i places hle hi hfirst _ ih =>
    cases h' with
    | stop hstop => exact absurd hi (hstop i hle)
    | @next _ i' places' hle' hi' hfirst' hs' =>
      obtain rfl : i' = i := by
        rcases Nat.lt_trichotomy i' i with hlt | heq | hlt
        · exact absurd hi' (hfirst i' hle' hlt)
        · exact heq
        · exact absurd hi (hfirst' i hle hlt)
      rw [ih hs']

/-- With the marker between them, the pieces are the text. -/
theorem intercalate_pieces (h : Successive marker s start places) :
    marker.intercalate (pieces marker.length s start places) = s.drop start := by
  induction h with
  | stop => exact List.intercalate_singleton
  | @next start i places hle hi _ _ ih =>
    have hsplit := List.take_append_drop (i - start) (s.drop start)
    rw [List.drop_drop, Nat.add_sub_cancel' hle, hi.drop_eq] at hsplit
    rw [pieces, List.intercalate_cons_of_ne_nil (pieces_ne_nil _ _ _ _), ih, List.append_assoc,
      hsplit]

/-- The last piece does not contain the marker. -/
theorem not_infix_getLast (h : Successive marker s start places) :
    ∀ last ∈ (pieces marker.length s start places).getLast?, ¬ marker <:+: last := by
  induction h with
  | stop hstop =>
    rintro last ⟨⟩ hinfix
    obtain ⟨j, hle, hj⟩ := infix_drop_iff.mp hinfix
    exact hstop j hle hj
  | next _ _ _ _ ih =>
    rw [pieces, List.getLast?_cons_of_ne_nil (pieces_ne_nil _ _ _ _)]
    exact ih

end Successive

end TextParsing.Text
