import TextParsing.Parser

/-!
# Sequences

`inOrder ps` runs each parser on the rest that the one before left.  `sequence ps` does the same
but fails as a whole: whatever failed and wherever, the failure stands at the sequence's input.

    sequence ps input = some (.success vs rest) ↔
      inOrder ps input = some (.success vs rest)                       (sequence_eq_success_iff)
-/

namespace TextParsing.Parser

variable {α : Type}

/-- Runs the parsers one after the other and collects their values, up to the first failure. -/
def inOrder : List (Parser α) → Parser (List α)
  | [] => ofFunction (.success [])
  | p :: ps => fun input => (p input).bind fun
    | .failure e => some (.failure e)
    | .success v rest => (inOrder ps rest).map (Outcome.map (v :: ·))

/-- Runs the parsers one after the other; a failure of any of them is a failure of the whole. -/
def sequence (ps : List (Parser α)) : Parser (List α) := (inOrder ps).orFail .sequenceBroken

theorem sequence_eq_success_iff {ps : List (Parser α)} {input rest : Input} {vs : List α} :
    sequence ps input = some (.success vs rest) ↔ inOrder ps input = some (.success vs rest) :=
  orFail_eq_success_iff

theorem sequence_eq_failure_iff {ps : List (Parser α)} {input : Input} {e : ParseError} :
    sequence ps input = some (.failure e) ↔
      e = ⟨.sequenceBroken, input.text⟩ ∧ ∃ e', inOrder ps input = some (.failure e') :=
  orFail_eq_failure_iff

end TextParsing.Parser
