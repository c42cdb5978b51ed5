import TextParsing.Proofs.Regex.Beside
import TextParsing.Proofs.Regex.Choice
import TextParsing.Proofs.Regex.Preferred
import TextParsing.Regex.Pattern

/-!
# The engine of this library

`Regex.engine` compiles a pattern by reading the expression that it denotes and making the plan to
search for it.  The laws of an engine are what is known of the reading, of the search, and of the
places at which an expression matches:

    Pattern.compile false s = .ok p →
      (p.find? w = some m ↔ endAt s w m.start = some m.stop ∧ ∀ i < m.start, endAt s w i = none)
                                                                                (find?_iff_endAt)

Where two patterns begin alike, a bar between them takes out of the branches what they have in common,
and how far that goes is decided before a branch is chosen.  So the first pattern is preferred if there
is only one way through the common beginning (`prefersFirst`), but else it need not be
(`not_prefersFirst_dots`).
-/

namespace TextParsing.Regex

open PatternParser (grouped either)

/-- Where the match of a pattern ends that is preferred of those that begin at a place of a text. -/
def endAt (s w : Text) (i : Nat) : Option Nat :=
  (ofPattern? {} s).bind fun r => if i ≤ w.length then (plan r).endFrom w i else none

section

variable {s t w : Text} {r a b : Regex} {i j : Nat}

theorem endAt_of_ofPattern? (h : ofPattern? {} s = some r) (hi : i ≤ w.length) :
    endAt s w i = (plan r).endFrom w i := by
  rw [endAt, h, Option.bind_some, if_pos hi]

theorem endAt_of_length_lt (hi : w.length < i) : endAt s w i = none := by
  rw [endAt, Option.bind_eq_none_iff]
  intro r _
  exact if_neg (by omega)

theorem endAt_bounds (h : endAt s w i = some j) : i ≤ j ∧ j ≤ w.length := by
  obtain ⟨r, -, h⟩ := Option.bind_eq_some_iff.mp h
  split at h
  · next hi =>
    have hmatch := Plan.matches_of_endFrom h
    exact ⟨hmatch.le, hmatch.le_length hi⟩
  · cases h

/-- A search finds the preferred match of those that begin leftmost. -/
theorem find?_iff_endAt (h : ofPattern? {} s = some r) {m : Match} : (plan r).find? w = some m ↔
    endAt s w m.start = some m.stop ∧ ∀ i < m.start, endAt s w i = none := by
  rcases Nat.lt_or_ge w.length m.start with hlt | hle
  · -- nothing begins behind the text
    rw [endAt_of_length_lt hlt]
    constructor
    · intro hm
      have := (Plan.matches_of_find? hm).1
      omega
    · rintro ⟨hend, -⟩
      cases hend
  · rw [Plan.find?_eq_some_iff hle, endAt_of_ofPattern? h hle]
    refine and_congr_right fun _ => forall₂_congr fun i hi => ?_
    rw [endAt_of_ofPattern? h (by omega)]

theorem eq_zero_of_matches_textStart (hi : i ≤ w.length)
    (h : (seq (look .textStart) r).Matches w i j) : i = 0 := by
  obtain ⟨k, ⟨hlook, -⟩, -⟩ := matches_seq.mp h
  cases i with
  | zero => rfl
  | succ i =>
    have hbefore : (charBefore w (i + 1)).isNone = true := hlook
    rw [charBefore, List.getElem?_eq_getElem hi] at hbefore
    cases hbefore

/-- Behind a test for the start of the text, an expression matches there what it matches by itself. -/
theorem endFrom_textStart : (plan (seq (look .textStart) r)).endFrom w 0 = (plan r).endFrom w 0 := by
  have hstart {p : Plan} {j : Nat} : p.endFrom w 0 = some j ↔ fromStart (p.find? w) = some ⟨0, j⟩ := by
    simp [Plan.fromStart_find?]
  refine Option.ext fun j => ?_
  rw [hstart, hstart, find?_seq_textStart, Plan.fromStart_find?]
  cases (plan r).endFrom w 0 <;> rfl

/-- A group matches what is inside it. -/
theorem endAt_group (h : ending s = some ⟨0, false⟩) : endAt (grouped s) w i = endAt s w i := by
  obtain ⟨r, hr⟩ := exists_ofPattern?_iff.mpr ⟨_, h⟩
  rw [endAt, endAt, ofPattern?_group h hr, hr]

/-- A caret matches at the start of the text and nowhere else. -/
theorem endAt_caret (h : ending s = some ⟨0, false⟩) :
    endAt ('^' :: grouped s) w i = if i = 0 then endAt (grouped s) w i else none := by
  obtain ⟨r, hr⟩ := exists_ofPattern?_iff.mpr ⟨_, h⟩
  have hcaret := ofPattern?_caret h hr
  split
  · next hi =>
    rw [hi, endAt_of_ofPattern? hcaret (Nat.zero_le _), endFrom_textStart, endAt_group h,
      endAt_of_ofPattern? hr (Nat.zero_le _)]
  · next hi =>
    rw [Option.eq_none_iff_forall_ne_some]
    intro j hj
    obtain ⟨hij, hj'⟩ := endAt_bounds hj
    have hlen : i ≤ w.length := Nat.le_trans hij hj'
    rw [endAt_of_ofPattern? hcaret hlen] at hj
    exact hi (eq_zero_of_matches_textStart hlen (matches_plan.mp (Plan.matches_of_endFrom hj)))

theorem exists_compile_iff (s : Text) : (∃ p, Pattern.compile false s = .ok p) ↔
    (∃ comment, ending s = some ⟨0, comment⟩) ∧ nesting {} s ≤ nestingLimit := by
  rw [← exists_ofPattern?_iff]
  constructor
  · rintro ⟨p, hp⟩
    obtain ⟨r, hr, hnest, -⟩ := Pattern.compile_eq_ok_iff.mp hp
    exact ⟨⟨r, hr⟩, hnest⟩
  · rintro ⟨⟨r, hr⟩, hnest⟩
    exact ⟨_, Pattern.compile_eq_ok_iff.mpr ⟨r, hr, hnest, rfl⟩⟩

/-- The engine that follows plans. -/
def engine : Engine where
  compile := Pattern.compile false
  ending := ending
  groupNames := groupNames
  Fits s := nesting {} s ≤ nestingLimit
  endAt := endAt
  exists_compile_iff := exists_compile_iff
  text_of_compile := Pattern.text_of_compile
  find?_iff h := by
    obtain ⟨r, hr, -, rfl⟩ := Pattern.compile_eq_ok_iff.mp h
    exact find?_iff_endAt hr
  endAt_bounds := endAt_bounds
  ending_open := ending_open
  ending_close := ending_close
  ending_unopened := ending_unopened
  ending_comment := ending_comment
  ending_either := ending_either
  endAt_group h := endAt_group h
  endAt_caret h := endAt_caret h

/-- What is made of a fixed text is told by a computation. -/
theorem exists_ok {α β : Type} {x : Except α β} (h : x.toOption.isSome = true) : ∃ y, x = .ok y := by
  cases x with
  | error e => cases h
  | ok y => exact ⟨y, rfl⟩

/-- So is what can be computed from it. -/
theorem exists_ok_of_map {α β γ : Type} {x : Except α β} {f : β → γ} {z : γ}
    (h : x.toOption.map f = some z) : ∃ y, x = .ok y ∧ f y = z := by
  cases x with
  | error e => cases h
  | ok y => exact ⟨y, rfl, Option.some.inj h⟩

/-! ## Which branch is preferred -/

/-- The patterns `.*b` and `.*c` begin alike.  A bar between them takes as much of `bc` as `.*` can have,
and does not prefer the first pattern, which matches `b`. -/
theorem not_prefersFirst_dots : ¬ engine.PrefersFirst ".*b".toList ".*c".toList := by
  intro h
  have hbar : endAt (either ".*b".toList ".*c".toList) "bc".toList 0 = some 2 := by decide +kernel
  have hfirst : endAt (grouped ".*b".toList) "bc".toList 0 = some 1 := by decide +kernel
  have heq : endAt (either ".*b".toList ".*c".toList) "bc".toList 0 =
      (endAt (grouped ".*b".toList) "bc".toList 0).or
        (endAt (grouped ".*c".toList) "bc".toList 0) := h _
  rw [hbar, hfirst, Option.some_or] at heq
  cases heq

end

end TextParsing.Regex
