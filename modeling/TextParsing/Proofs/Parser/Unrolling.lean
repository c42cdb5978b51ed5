import TextParsing.Parser.Literal
import TextParsing.Proofs.Parser.Answering
import TextParsing.Proofs.Parser.Greedy

/-!
# A repetition as its first round and the others

A repetition collects the values of its rounds in a loop.  The same can be said by recursion: a
repetition is one round in front of a repetition, or nothing at all.

    many p = orElse ((pair p (many p)).map consPair) (constant [])
    repeatAtLeast (k + 1) p = (pair p (repeatAtLeast k p)).map consPair

The second line holds for successes; a failure of either side leaves the input but says something else.
Both lines need that a success of `p` consumes something (`AlwaysConsumes`): the loop drops a round that
consumes nothing, a sequence does not.
-/

namespace TextParsing.Parser

variable {α β : Type} {p : Parser α} {q : Parser β} {input mid rest : Input} {v : α} {w : β}
  {e : ParseError}

/-- Whether no success leaves the whole input. -/
def AlwaysConsumes (p : Parser α) : Prop := ∀ input v, p input ≠ some (.success v input)

theorem length_lt_of_success (hs : SucceedsOnSuffix p) (hc : AlwaysConsumes p)
    (h : p input = some (.success v rest)) : rest.length < input.length := by
  have hsuffix := hs input v rest h
  rw [rest.length_eq, input.length_eq]
  apply Nat.lt_of_le_of_ne hsuffix.length_le
  intro heq
  obtain rfl : rest = input := Input.ext (hsuffix.eq_of_length heq)
  exact hc rest v h

/-! ## Sequences of two parsers of different kinds -/

/-- The sequence of two parsers whose values are of different types, with each value marked by the place
of its parser. -/
def pair (p : Parser α) (q : Parser β) : Parser (List (α ⊕ β)) := sequence [p.map .inl, q.map .inr]

/-- The first value of a pair in front of the list that is the second one. -/
def consPair : List (α ⊕ List α) → List α
  | [.inl v, .inr vs] => v :: vs
  | _ => []

theorem pair_of_both (hp : p input = some (.success v mid)) (hq : q mid = some (.success w rest)) :
    pair p q input = some (.success [.inl v, .inr w] rest) :=
  sequence_of_both (map_eq_success_iff.mpr ⟨v, hp, rfl⟩) (map_eq_success_iff.mpr ⟨w, hq, rfl⟩)

theorem pair_of_failure (hp : p input = some (.failure e)) :
    pair p q input = some (.failure ⟨.sequenceBroken, input.text⟩) :=
  sequence_of_failure _ (map_eq_failure_iff.mpr hp)

theorem pair_of_second_failure (hp : p input = some (.success v mid))
    (hq : q mid = some (.failure e)) :
    pair p q input = some (.failure ⟨.sequenceBroken, input.text⟩) :=
  sequence_of_second_failure (map_eq_success_iff.mpr ⟨v, hp, rfl⟩) (map_eq_failure_iff.mpr hq)

/-! ## The first round -/

/-- The rounds of a parser that always consumes something: none where it fails, and otherwise the first
round in front of those from its rest on. -/
theorem rounds_first (hs : SucceedsOnSuffix p) (hc : AlwaysConsumes p) (hp : ∀ x, p.Answers x)
    (input : Input) :
    (∃ e, p input = some (.failure e) ∧ rounds p input = some ([], input)) ∨
      ∃ v mid vs rest, p input = some (.success v mid) ∧ rounds p mid = some (vs, rest) ∧
        rounds p input = some (v :: vs, rest) := by
  obtain ⟨o, ho⟩ := hp input
  cases o with
  | failure e => exact .inl ⟨e, ho, rounds_of_failure ho⟩
  | success v mid =>
    obtain ⟨vs, rest, hvs⟩ := exists_rounds mid fun x _ => hp x
    refine .inr ⟨v, mid, vs, rest, ho, hvs, ?_⟩
    rw [rounds_of_success ho (length_lt_of_success hs hc ho), hvs]
    rfl

/-- A repetition of a parser whose successes leave suffixes and consume something.  Without a number of
rounds that it requires, it finds what the choice between a round in front of it and an empty list
finds.  If it requires one round more than another repetition, it succeeds where a round in front of
the other one does, with the same values and the same rest; elsewhere both fail and leave the input. -/
theorem repetition_unrolls (hs : SucceedsOnSuffix p) (hc : AlwaysConsumes p)
    (hp : ∀ x, p.Answers x) (input : Input) :
    (∃ vs rest, many p input = some (.success vs rest) ∧
      orElse ((pair p (many p)).map consPair) (constant []) input = some (.success vs rest)) ∧
    ∀ required,
      (∃ v vs rest,
        pair p (repeatAtLeast required p) input = some (.success [.inl v, .inr vs] rest) ∧
        repeatAtLeast (required + 1) p input = some (.success (v :: vs) rest)) ∨
      (∃ e e', pair p (repeatAtLeast required p) input = some (.failure e) ∧
        repeatAtLeast (required + 1) p input = some (.failure e') ∧
        e.rest = input.text ∧ e'.rest = input.text) := by
  rcases rounds_first hs hc hp input with ⟨e, he, hnone⟩ | ⟨v, mid, vs, rest, hv, hvs, hall⟩
  · refine ⟨⟨[], input, repeatAtLeast_of_rounds 0 hnone, ?_⟩, fun required => .inr ?_⟩
    · exact orElse_of_failure (map_eq_failure_iff.mpr (pair_of_failure he))
    · exact ⟨_, _, pair_of_failure he, repeatAtLeast_of_rounds (required + 1) hnone, rfl, rfl⟩
  · refine ⟨⟨v :: vs, rest, repeatAtLeast_of_rounds 0 hall, ?_⟩, fun required => ?_⟩
    · have hpair := pair_of_both hv (repeatAtLeast_of_rounds 0 hvs)
      exact orElse_of_success (map_eq_success_iff.mpr ⟨_, hpair, rfl⟩)
    · have hrest := repeatAtLeast_of_rounds required hvs
      have hinput := repeatAtLeast_of_rounds (required + 1) hall
      rw [List.length_cons] at hinput
      by_cases hlt : vs.length < required
      · rw [if_pos hlt] at hrest
        rw [if_pos (Nat.succ_lt_succ hlt)] at hinput
        exact .inr ⟨_, _, pair_of_second_failure hv hrest, hinput, rfl, rfl⟩
      · rw [if_neg hlt] at hrest
        rw [if_neg (mt Nat.lt_of_succ_lt_succ hlt)] at hinput
        exact .inl ⟨v, vs, rest, pair_of_both hv hrest, hinput⟩

/-- Three rounds of a literal of two characters: two are left for the repetition behind the first one,
and a repetition that requires three of them fails there. -/
theorem repetition_unrolls_literal :
    (∃ v vs rest, pair (literal "éa".toList) (repeatAtLeast 2 (literal "éa".toList))
        (.ofText "éaéaéaé".toList) = some (.success [.inl v, .inr vs] rest) ∧
      repeatAtLeast 3 (literal "éa".toList) (.ofText "éaéaéaé".toList) =
        some (.success (v :: vs) rest)) ∧
    ∃ e, repeatAtLeast 4 (literal "éa".toList) (.ofText "éaéaéaé".toList) = some (.failure e) ∧
      e.rest = "éaéaéaé".toList := by
  have hs : SucceedsOnSuffix (literal "éa".toList) := by
    intro input v rest h
    exact ⟨_, (literal_eq_success_iff.mp h).2.symm⟩
  have hc : AlwaysConsumes (literal "éa".toList) := by
    intro input v h
    have htext := congrArg List.length (literal_eq_success_iff.mp h).2
    rw [List.length_append] at htext
    exact absurd htext (by simp)
  have hp (x : Input) : (literal "éa".toList).Answers x := ⟨_, rfl⟩
  have h := (repetition_unrolls hs hc hp (.ofText "éaéaéaé".toList)).2
  constructor
  · have hthree : (repeatAtLeast 3 (literal "éa".toList) (.ofText "éaéaéaé".toList)).map
        Outcome.isSuccess = some true := by decide +kernel
    rcases h 2 with h | ⟨-, e, -, he, -⟩
    · exact h
    · rw [he] at hthree
      cases hthree
  · have hfour : (repeatAtLeast 4 (literal "éa".toList) (.ofText "éaéaéaé".toList)).map
        Outcome.isSuccess = some false := by decide +kernel
    rcases h 3 with ⟨v, vs, rest, -, hv⟩ | ⟨-, e, -, he, -, hrest⟩
    · rw [hv] at hfour
      cases hfour
    · exact ⟨e, he, hrest⟩

end TextParsing.Parser
