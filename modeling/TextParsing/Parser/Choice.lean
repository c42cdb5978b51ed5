import TextParsing.Parser

/-!
# Ordered choice

`orElse p q` is `p` where `p` succeeds and `q` elsewhere; if neither succeeds the failure stands at
the choice's input.  `firstOf p qs` chains any number of alternatives from the left.
-/

namespace TextParsing.Parser

variable {α : Type}

/-- Tries `p`, and `q` on the same input if `p` fails. -/
def orElse (p q : Parser α) : Parser α := fun input => (p input).bind fun
  | .success v rest => some (.success v rest)
  | .failure _ => q.orFail .noAlternative input

/-- Tries `p` and then each of the others, grouped to the left. -/
def firstOf (p : Parser α) (others : List (Parser α)) : Parser α := others.foldl orElse p

theorem orElse_of_success {p q : Parser α} {input rest : Input} {v : α}
    (h : p input = some (.success v rest)) : orElse p q input = some (.success v rest) := by
  simp [orElse, h]

theorem orElse_of_failure {p q : Parser α} {input : Input} {e : ParseError}
    (h : p input = some (.failure e)) : orElse p q input = q.orFail .noAlternative input := by
  simp [orElse, h]

end TextParsing.Parser
