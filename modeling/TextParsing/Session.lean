import TextParsing.Parser

/-!
# Sessions: several parsers along one source

A session runs parsers one after the other.  Each starts where the one before it stopped, after a
failure as well as after a success.

    run (p :: ps) cursor continues with the rest of p's outcome        (run_cons)
-/

namespace TextParsing.Session

variable {α : Type}

/-- The outcomes of the parsers, each run on the rest of the outcome before it. -/
def run : List (Parser α) → Input → Option (List (Outcome α))
  | [], _ => some []
  | p :: ps, cursor => (p cursor).bind fun o => (run ps o.rest).map (o :: ·)

theorem run_cons (p : Parser α) (ps : List (Parser α)) (cursor : Input) :
    run (p :: ps) cursor = (p cursor).bind fun o => (run ps o.rest).map (o :: ·) := rfl

end TextParsing.Session
