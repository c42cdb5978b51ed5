import TextParsing.Input
import TextParsing.ParseError

/-!
# Parsers and their outcomes

A `Parser α` reads what is left of a text and answers with an `Outcome`: a value and the rest, or a
`ParseError`.  The answer is optional because a grammar whose rules refer to each other without
consuming anything has none; every primitive parser answers on every input.

    (p.map f) input = some (.success v rest) ↔
      ∃ u, p input = some (.success u rest) ∧ v = f u                  (map_eq_success_iff)
-/

namespace TextParsing

/-- What a parser found: a value and the rest, or a failure. -/
inductive Outcome (α : Type) where
  | success (value : α) (rest : Input)
  | failure (error : ParseError)

namespace Outcome

/-- The input on which parsing continues, after a success as after a failure. -/
def rest {α : Type} : Outcome α → Input
  | .success _ rest => rest
  | .failure e => .ofText e.rest

/-- Whether a value was found. -/
def isSuccess {α : Type} : Outcome α → Bool
  | .success _ _ => true
  | .failure _ => false

/-- The outcome with its value changed; a failure stays as it is. -/
def map {α β : Type} (f : α → β) : Outcome α → Outcome β
  | .success v rest => .success (f v) rest
  | .failure e => .failure e

/-- The outcome with any failure replaced by one at the given input. -/
def orFail {α : Type} (cause : Cause) (input : Input) : Outcome α → Outcome α
  | .success v rest => .success v rest
  | .failure _ => .failure ⟨cause, input.text⟩

end Outcome

/-- A parser: what it answers, if it answers, on each input. -/
abbrev Parser (α : Type) := Input → Option (Outcome α)

namespace Parser

variable {α β : Type}

/-- The parser that answers every input as the given function does. -/
def ofFunction (f : Input → Outcome α) : Parser α := fun input => some (f input)

/-- The parser that never answers. -/
def silent : Parser α := fun _ => none

/-- The parser with its values changed by `f`. -/
def map (f : α → β) (p : Parser α) : Parser β := fun input => (p input).map (Outcome.map f)

/-- The parser with its failures replaced by one of the given cause at its own input. -/
def orFail (cause : Cause) (p : Parser α) : Parser α :=
  fun input => (p input).map (Outcome.orFail cause input)

theorem map_eq_success_iff {f : α → β} {p : Parser α} {input rest : Input} {v : β} :
    p.map f input = some (.success v rest) ↔ ∃ u, p input = some (.success u rest) ∧ v = f u := by
  unfold map
  cases h : p input with
  | none => simp
  | some o => cases o <;> grind [Outcome.map]

theorem map_eq_failure_iff {f : α → β} {p : Parser α} {input : Input} {e : ParseError} :
    p.map f input = some (.failure e) ↔ p input = some (.failure e) := by
  unfold map
  cases h : p input with
  | none => simp
  | some o => cases o <;> simp [Outcome.map]

theorem orFail_eq_success_iff {cause : Cause} {p : Parser α} {input rest : Input} {v : α} :
    p.orFail cause input = some (.success v rest) ↔ p input = some (.success v rest) := by
  unfold orFail
  cases h : p input with
  | none => simp
  | some o => cases o <;> simp [Outcome.orFail]

theorem orFail_eq_failure_iff {cause : Cause} {p : Parser α} {input : Input} {e : ParseError} :
    p.orFail cause input = some (.failure e) ↔
      e = ⟨cause, input.text⟩ ∧ ∃ e', p input = some (.failure e') := by
  unfold orFail
  cases h : p input with
  | none => simp
  | some o => cases o <;> simp [Outcome.orFail, eq_comm]

end Parser

end TextParsing
