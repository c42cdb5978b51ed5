import TextParsing.Parser.Literal
import TextParsing.Proofs.Parser.Answering
import TextParsing.Proofs.Parser.Taking
import TextParsing.Proofs.Parser.UpTo
import TextParsing.Proofs.Text.Run

/-!
# Parsers that take all they can at once

A parser is saturating if a second run, on the rest of a success, fails or consumes nothing.  Runs of
characters are, text up to a marker is, and so is every repetition, because no round follows on what its
rounds leave:

    Saturating (repeatAtLeast k p)                                      (saturating_repeatAtLeast)

A repetition of a saturating parser therefore has at most one round:

    q input = some (.success v rest) → rest.length < input.length →
      rounds q input = some ([v], rest)                                        (Saturating.rounds)
-/

namespace TextParsing.Parser

variable {α : Type} {p q : Parser α} {input rest : Input} {v : α}

/-- Whether on the rest of a success the parser fails or consumes nothing. -/
def Saturating (q : Parser α) : Prop :=
  ∀ input v rest, q input = some (.success v rest) →
    (∃ e, q rest = some (.failure e)) ∨ ∃ w, q rest = some (.success w rest)

/-- Whether every attempt to repeat the parser twice fails and leaves the input. -/
def NeverTwice (q : Parser α) : Prop :=
  ∀ input, ∃ e, several q input = some (.failure e) ∧ e.rest = input.text

/-! ## Saturating parsers -/

theorem saturating_runAtLeast (required : Nat) (ok : Char → Bool) :
    Saturating (runAtLeast required ok) := by
  intro input v rest h
  obtain ⟨-, -, hrest⟩ := runAtLeast_eq_success_iff.mp h
  obtain rfl := Input.eq_ofText_iff.mpr hrest
  have hnone := Text.takeWhile_eq_nil_of_head? (Text.eq_false_of_head?_dropWhile ok input.text)
  by_cases hlt : 0 < required
  · exact .inl ⟨_, runAtLeast_of_short (s := []) hlt (by simp) hnone⟩
  · exact .inr ⟨[], takes_runAtLeast (s := []) (Nat.not_lt.mp hlt) (by simp) hnone⟩

theorem saturating_upTo (marker : Text) : Saturating (upTo marker) := by
  intro input v rest h
  rw [upTo_eq] at h
  cases h
  right
  have hzero := Text.firstAt_eq_zero_of_stop (Text.firstAt_stops marker input.text)
  refine ⟨[], ?_⟩
  rw [upTo_eq, Input.text_drop, hzero, List.take_zero]
  exact congrArg (fun i => some (Outcome.success [] i)) (Input.ext List.drop_zero)

theorem saturating_repeatAtLeast (required : Nat) (p : Parser α) :
    Saturating (repeatAtLeast required p) := by
  intro input vs rest h
  have hagain := rounds_again (repeatAtLeast_eq_success_iff.mp h).1
  have hrest := repeatAtLeast_of_rounds required hagain
  by_cases hlt : 0 < required
  · rw [List.length_nil, if_pos hlt] at hrest
    exact .inl ⟨_, hrest⟩
  · rw [List.length_nil, if_neg hlt] at hrest
    exact .inr ⟨_, hrest⟩

/-! ## Repetitions of them -/

/-- Where a saturating parser consumes something, there is one round of it. -/
theorem Saturating.rounds (hq : Saturating q) (h : q input = some (.success v rest))
    (hlt : rest.length < input.length) : rounds q input = some ([v], rest) := by
  rw [rounds_of_success h hlt]
  rcases hq input v rest h with ⟨e, he⟩ | ⟨w, hw⟩
  · rw [rounds_of_failure he]
    rfl
  · rw [rounds_of_idle hw (Nat.le_refl _)]
    rfl

theorem rounds_of_not_consuming (hp : p.Answers input)
    (h : ¬ ∃ v rest, p input = some (.success v rest) ∧ rest.length < input.length) :
    rounds p input = some ([], input) := by
  rcases rounds_cases p input with hnone | ⟨hsilent, -⟩ | ⟨v, rest, hv, hlt, -⟩
  · exact hnone
  · obtain ⟨o, ho⟩ := hp
    rw [ho] at hsilent
    cases hsilent
  · exact absurd ⟨v, rest, hv, hlt⟩ h

theorem Saturating.neverTwice (hq : Saturating q) (ha : ∀ x, q.Answers x) : NeverTwice q := by
  intro input
  by_cases h : ∃ v rest, q input = some (.success v rest) ∧ rest.length < input.length
  · obtain ⟨v, rest, hv, hlt⟩ := h
    exact ⟨_, repeatAtLeast_of_rounds severalRounds (hq.rounds hv hlt), rfl⟩
  · exact ⟨_, repeatAtLeast_of_rounds severalRounds (rounds_of_not_consuming (ha input) h), rfl⟩

/-- Without a round, nothing is consumed. -/
theorem eq_of_rounds_nil (h : rounds p input = some ([], rest)) : rest = input := by
  rcases rounds_cases p input with hs | ⟨-, hs⟩ | ⟨v, mid, -, -, hs⟩
  · rw [hs] at h
    cases h
    rfl
  · rw [hs] at h
    cases h
  · rw [hs] at h
    obtain ⟨r, -, hr⟩ := Option.map_eq_some_iff.mp h
    cases hr

/-- A repetition of a repetition has one round, with the whole list, unless the list is empty. -/
theorem exists_many_many (hp : ∀ x, p.Answers x) (input : Input) :
    ∃ vs rest, many p input = some (.success vs rest) ∧
      (vs = [] → many (many p) input = some (.success [] rest)) ∧
      (vs ≠ [] → many (many p) input = some (.success [vs] rest)) := by
  obtain ⟨vs, rest, hr⟩ := exists_rounds input fun x _ => hp x
  have hmany : many p input = some (.success vs rest) := repeatAtLeast_of_rounds 0 hr
  have hle := length_add_le_of_rounds hr
  refine ⟨vs, rest, hmany, ?_, ?_⟩
  · rintro rfl
    obtain rfl := eq_of_rounds_nil hr
    exact repeatAtLeast_of_rounds 0 (rounds_of_idle hmany (Nat.le_refl _))
  · intro hne
    have hpos := List.length_pos_iff.mpr hne
    exact repeatAtLeast_of_rounds 0 ((saturating_repeatAtLeast 0 p).rounds hmany (by omega))

/-- Runs of characters, text up to a marker and repetitions are saturating.  A repetition of a
saturating parser has one round where the parser succeeds and consumes something, and none elsewhere,
so that two of them are never found.  In particular, a repetition of a repetition has the list of the
inner one as its only item, or nothing if this list is empty, and leaves the same. -/
theorem saturating_repetition (hp : ∀ x, p.Answers x) :
    (∀ required ok, Saturating (runAtLeast required ok) ∧ NeverTwice (runAtLeast required ok)) ∧
    (∀ marker, Saturating (upTo marker) ∧ NeverTwice (upTo marker)) ∧
    (∀ required, Saturating (repeatAtLeast required p) ∧ NeverTwice (repeatAtLeast required p)) ∧
    (∀ {β : Type} (q : Parser β), Saturating q → (∀ x, q.Answers x) →
      NeverTwice q ∧ ∀ required input,
        (∀ v rest, q input = some (.success v rest) → rest.length < input.length →
          repeatAtLeast required q input = some (if 1 < required
            then .failure ⟨.repetitionTooShort required 1, input.text⟩ else .success [v] rest)) ∧
        ((¬ ∃ v rest, q input = some (.success v rest) ∧ rest.length < input.length) →
          repeatAtLeast required q input = some (if 0 < required
            then .failure ⟨.repetitionTooShort required 0, input.text⟩ else .success [] input))) ∧
    ∀ input, ∃ vs rest, many p input = some (.success vs rest) ∧
      (vs = [] → many (many p) input = some (.success [] rest)) ∧
      (vs ≠ [] → many (many p) input = some (.success [vs] rest)) := by
  refine ⟨?_, ?_, ?_, ?_, exists_many_many hp⟩
  · intro required ok
    have hq := saturating_runAtLeast required ok
    exact ⟨hq, hq.neverTwice fun _ => ⟨_, rfl⟩⟩
  · intro marker
    have hq := saturating_upTo marker
    exact ⟨hq, hq.neverTwice fun _ => ⟨_, rfl⟩⟩
  · intro required
    have hq := saturating_repeatAtLeast required p
    exact ⟨hq, hq.neverTwice fun _ => answers_repeatAtLeast fun x _ => hp x⟩
  · intro β q hq ha
    refine ⟨hq.neverTwice ha, fun required input => ⟨?_, ?_⟩⟩
    · intro v rest hv hlt
      exact repeatAtLeast_of_rounds required (hq.rounds hv hlt)
    · intro hnone
      exact repeatAtLeast_of_rounds required (rounds_of_not_consuming (ha input) hnone)

/-- Two rounds of a literal are one round of their repetition, and not two. -/
theorem saturating_repetition_literal :
    (∃ vs rest, many (literal "éa".toList) (.ofText "éaéaé".toList) = some (.success vs rest) ∧
      many (many (literal "éa".toList)) (.ofText "éaéaé".toList) = some (.success [vs] rest)) ∧
    ∃ e, several (several (literal "éa".toList)) (.ofText "éaéaé".toList) = some (.failure e) ∧
      e.rest = "éaéaé".toList := by
  have hp (x : Input) : (literal "éa".toList).Answers x := ⟨_, rfl⟩
  obtain ⟨-, -, hrepeat, -, hmany⟩ := saturating_repetition hp
  constructor
  · obtain ⟨vs, rest, hvs, -, hone⟩ := hmany (.ofText "éaéaé".toList)
    refine ⟨vs, rest, hvs, hone ?_⟩
    rintro rfl
    -- the repetition does find something
    have hsome : (many (literal "éa".toList) (.ofText "éaéaé".toList)).map
        (fun o => o.rest.length) = some 1 := by decide +kernel
    rw [hvs, eq_of_rounds_nil (repeatAtLeast_eq_success_iff.mp hvs).1] at hsome
    cases hsome
  · exact (hrepeat severalRounds).2 _

end TextParsing.Parser
