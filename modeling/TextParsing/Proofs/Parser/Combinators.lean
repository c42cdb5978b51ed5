import TextParsing.Parser.Choice
import TextParsing.Parser.Repetition
import TextParsing.Parser.Sequence

/-!
# When combined parsers succeed and fail

What a sequence, a choice or a repetition answers, told by what its parts answer.  Every failure of
the three stands at their own input:

    orElse p q input = some (.failure e) → e = ⟨.noAlternative, input.text⟩
                                                                   (eq_of_orElse_eq_failure)
    repeatAtLeast k p input = some (.failure e) → e.rest = input.text
                                                                   (rest_of_repeatAtLeast_eq_failure)

`rounds_induction` is the induction along the rounds of a repetition: whatever holds where no round
follows and is kept when a consuming round is put in front holds of all rounds.
-/

namespace TextParsing.Parser

variable {α : Type}

/-! ## Sequence -/

theorem inOrder_cons_of_failure {p : Parser α} {ps : List (Parser α)} {input : Input}
    {e : ParseError} (h : p input = some (.failure e)) :
    inOrder (p :: ps) input = some (.failure e) := by
  show (p input).bind _ = _
  rw [h]
  rfl

theorem inOrder_cons_of_success {p : Parser α} {ps : List (Parser α)} {input rest : Input} {v : α}
    (h : p input = some (.success v rest)) :
    inOrder (p :: ps) input = (inOrder ps rest).map (Outcome.map (v :: ·)) := by
  show (p input).bind _ = _
  rw [h]
  rfl

theorem inOrder_cons_eq_success_iff {p : Parser α} {ps : List (Parser α)} {input rest : Input}
    {vs : List α} :
    inOrder (p :: ps) input = some (.success vs rest) ↔
      ∃ v mid ws, p input = some (.success v mid) ∧ inOrder ps mid = some (.success ws rest) ∧
        vs = v :: ws := by
  constructor
  · intro h
    obtain ⟨o, hp, h⟩ := Option.bind_eq_some_iff.mp h
    cases o with
    | failure e => cases h
    | success v mid =>
      obtain ⟨o, hps, h⟩ := Option.map_eq_some_iff.mp h
      cases o with
      | failure e => cases h
      | success ws last =>
        cases h
        exact ⟨v, mid, ws, hp, hps, rfl⟩
  · rintro ⟨v, mid, ws, hp, hps, rfl⟩
    rw [inOrder_cons_of_success hp, hps]
    rfl

theorem sequence_of_failure {p : Parser α} (ps : List (Parser α)) {input : Input} {e : ParseError}
    (h : p input = some (.failure e)) :
    sequence (p :: ps) input = some (.failure ⟨.sequenceBroken, input.text⟩) :=
  sequence_eq_failure_iff.mpr ⟨rfl, e, inOrder_cons_of_failure h⟩

/-- A sequence fails as a whole where the second parser fails. -/
theorem sequence_of_second_failure {p q : Parser α} {ps : List (Parser α)} {input mid : Input}
    {v : α} {e : ParseError} (hp : p input = some (.success v mid)) (hq : q mid = some (.failure e)) :
    sequence (p :: q :: ps) input = some (.failure ⟨.sequenceBroken, input.text⟩) := by
  refine sequence_eq_failure_iff.mpr ⟨rfl, e, ?_⟩
  rw [inOrder_cons_of_success hp, inOrder_cons_of_failure hq]
  rfl

theorem sequence_of_both {p q : Parser α} {input mid rest : Input} {v w : α}
    (hp : p input = some (.success v mid)) (hq : q mid = some (.success w rest)) :
    sequence [p, q] input = some (.success [v, w] rest) := by
  rw [sequence_eq_success_iff, inOrder_cons_of_success hp, inOrder_cons_of_success hq]
  rfl

/-! ## Choice -/

theorem orElse_eq_success_iff {p q : Parser α} {input rest : Input} {v : α} :
    orElse p q input = some (.success v rest) ↔
      p input = some (.success v rest) ∨
        (∃ e, p input = some (.failure e)) ∧ q input = some (.success v rest) := by
  cases hp : p input with
  | none => simp [orElse, hp]
  | some o =>
    cases o with
    | success u mid => simp [orElse, hp]
    | failure e => simp [orElse_of_failure hp, orFail_eq_success_iff]

theorem eq_of_orElse_eq_failure {p q : Parser α} {input : Input} {e : ParseError}
    (h : orElse p q input = some (.failure e)) : e = ⟨.noAlternative, input.text⟩ := by
  obtain ⟨o, hp, h⟩ := Option.bind_eq_some_iff.mp h
  cases o with
  | success v rest => cases h
  | failure e' => exact (orFail_eq_failure_iff.mp h).1

/-! ## Repetition -/

/-- What a repetition answers is told by the rounds and by their number. -/
theorem repeatAtLeast_of_rounds (required : Nat) {p : Parser α} {input rest : Input} {vs : List α}
    (h : rounds p input = some (vs, rest)) :
    repeatAtLeast required p input = some (if vs.length < required
      then .failure ⟨.repetitionTooShort required vs.length, input.text⟩ else .success vs rest) := by
  rw [repeatAtLeast, h]
  rfl

theorem repeatAtLeast_eq_success_iff {required : Nat} {p : Parser α} {input rest : Input}
    {vs : List α} :
    repeatAtLeast required p input = some (.success vs rest) ↔
      rounds p input = some (vs, rest) ∧ required ≤ vs.length := by
  unfold repeatAtLeast
  rw [Option.map_eq_some_iff]
  constructor
  · rintro ⟨⟨ws, last⟩, hr, h⟩
    dsimp only at h
    split at h
    · cases h
    · next hle =>
      cases h
      exact ⟨hr, Nat.not_lt.mp hle⟩
  · rintro ⟨hr, hle⟩
    refine ⟨(vs, rest), hr, ?_⟩
    dsimp only
    rw [if_neg (Nat.not_lt.mpr hle)]

theorem rest_of_repeatAtLeast_eq_failure {required : Nat} {p : Parser α} {input : Input}
    {e : ParseError} (h : repeatAtLeast required p input = some (.failure e)) :
    e.rest = input.text := by
  obtain ⟨⟨vs, last⟩, -, h⟩ := Option.map_eq_some_iff.mp h
  dsimp only at h
  split at h
  · cases h
    rfl
  · cases h

theorem rounds_of_none {p : Parser α} {cursor : Input} (h0 : cursor.length ≠ 0)
    (h : p cursor = none) : rounds p cursor = none := by
  rw [rounds, roundsFrom, if_neg h0, h]

theorem rounds_cases (p : Parser α) (cursor : Input) :
    rounds p cursor = some ([], cursor) ∨ (p cursor = none ∧ rounds p cursor = none) ∨
      ∃ v rest, p cursor = some (.success v rest) ∧ rest.length < cursor.length ∧
        rounds p cursor = (rounds p rest).map fun (vs, last) => (v :: vs, last) := by
  by_cases h0 : cursor.length = 0
  · exact .inl (rounds_of_length_eq_zero h0)
  · cases hp : p cursor with
    | none => exact .inr (.inl ⟨rfl, rounds_of_none h0 hp⟩)
    | some o =>
      cases o with
      | failure e => exact .inl (rounds_of_failure hp)
      | success v rest =>
        by_cases hlt : rest.length < cursor.length
        · exact .inr (.inr ⟨v, rest, rfl, hlt, rounds_of_success hp hlt⟩)
        · exact .inl (rounds_of_idle hp (Nat.not_lt.mp hlt))

/-- Induction along the rounds of a repetition, the last round first; no round follows where they
stop. -/
theorem rounds_induction {p : Parser α} {motive : Input → List α → Input → Prop}
    (stop : ∀ cursor, rounds p cursor = some ([], cursor) → motive cursor [] cursor)
    (round : ∀ cursor v rest vs last, p cursor = some (.success v rest) →
      rest.length < cursor.length → motive rest vs last → motive cursor (v :: vs) last)
    {cursor last : Input} {vs : List α} (h : rounds p cursor = some (vs, last)) :
    motive cursor vs last := by
  generalize hn : cursor.length = n
  induction n using Nat.strongRecOn generalizing cursor vs with
  | ind n ih =>
    rcases rounds_cases p cursor with hs | ⟨-, hs⟩ | ⟨v, rest, hp, hlt, hs⟩
    · have hstop := stop cursor hs
      rw [hs] at h
      cases h
      exact hstop
    · rw [hs] at h
      cases h
    · rw [hs] at h
      obtain ⟨⟨ws, end_⟩, hr, he⟩ := Option.map_eq_some_iff.mp h
      cases he
      exact round cursor v rest ws last hp hlt (ih rest.length (hn ▸ hlt) hr rfl)

/-- No round follows on what the rounds leave. -/
theorem rounds_again {p : Parser α} {cursor last : Input} {vs : List α}
    (h : rounds p cursor = some (vs, last)) : rounds p last = some ([], last) := by
  refine rounds_induction (motive := fun _ _ last => rounds p last = some ([], last)) ?_ ?_ h
  · intro cursor hstop
    exact hstop
  · intro cursor v rest vs last _ _ ih
    exact ih

/-- Every round that is kept consumes something. -/
theorem length_add_le_of_rounds {p : Parser α} {cursor last : Input} {vs : List α}
    (h : rounds p cursor = some (vs, last)) : last.length + vs.length ≤ cursor.length := by
  refine rounds_induction (motive := fun cursor vs last =>
    last.length + vs.length ≤ cursor.length) ?_ ?_ h
  · intro cursor _
    exact Nat.le_refl _
  · intro cursor v rest vs last _ hlt ih
    rw [List.length_cons]
    omega

theorem length_lt_of_repeatAtLeast {required : Nat} {p : Parser α} {input rest : Input}
    {vs : List α} (h : repeatAtLeast (required + 1) p input = some (.success vs rest)) :
    rest.length < input.length := by
  obtain ⟨hr, hle⟩ := repeatAtLeast_eq_success_iff.mp h
  have := length_add_le_of_rounds hr
  omega

end TextParsing.Parser
