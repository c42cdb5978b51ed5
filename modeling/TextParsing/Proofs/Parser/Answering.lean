import TextParsing.Proofs.Parser.Combinators

/-!
# Parsers that answer

A parser answers an input if it succeeds there or fails there (`Parser.Answers`).  Changing its values
or its failures does not matter for that, and a choice or a repetition answers where its parts do:

    p.Answers input → q.Answers input → (orElse p q).Answers input                 (Answers.orElse)
    (∀ x, x.length ≤ input.length → p.Answers x) →
      (repeatAtLeast k p).Answers input                                      (answers_repeatAtLeast)
-/

namespace TextParsing.Parser

variable {α β : Type} {p q : Parser α} {input : Input}

/-- Whether a parser answers an input. -/
def Answers (p : Parser α) (input : Input) : Prop := ∃ o, p input = some o

theorem Answers.map (h : p.Answers input) (f : α → β) : (p.map f).Answers input := by
  obtain ⟨o, ho⟩ := h
  exact ⟨o.map f, by rw [Parser.map, ho]; rfl⟩

theorem Answers.orFail (h : p.Answers input) (cause : Cause) : (p.orFail cause).Answers input := by
  obtain ⟨o, ho⟩ := h
  exact ⟨o.orFail cause input, by rw [Parser.orFail, ho]; rfl⟩

theorem Answers.orElse (hp : p.Answers input) (hq : q.Answers input) :
    (orElse p q).Answers input := by
  obtain ⟨o, ho⟩ := hp
  cases o with
  | success v rest => exact ⟨_, orElse_of_success ho⟩
  | failure e =>
    rw [Answers, orElse_of_failure ho]
    exact hq.orFail .noAlternative

/-- Rounds come to an end if the parser answers everything that can be left after some of them. -/
theorem exists_rounds (cursor : Input) (hp : ∀ x, x.length ≤ cursor.length → p.Answers x) :
    ∃ vs last, rounds p cursor = some (vs, last) := by
  generalize hn : cursor.length = n
  induction n using Nat.strongRecOn generalizing cursor with
  | ind n ih =>
    rcases rounds_cases p cursor with h | ⟨hnone, -⟩ | ⟨v, rest, -, hlt, h⟩
    · exact ⟨_, _, h⟩
    · obtain ⟨o, ho⟩ := hp cursor (Nat.le_refl _)
      rw [ho] at hnone
      cases hnone
    · obtain ⟨vs, last, hr⟩ := ih rest.length (hn ▸ hlt) rest (fun x hx => hp x (by omega)) rfl
      rw [h, hr]
      exact ⟨_, _, rfl⟩

theorem answers_repeatAtLeast {required : Nat}
    (hp : ∀ x, x.length ≤ input.length → p.Answers x) : (repeatAtLeast required p).Answers input := by
  obtain ⟨vs, last, h⟩ := exists_rounds input hp
  exact ⟨_, repeatAtLeast_of_rounds required h⟩

end TextParsing.Parser
