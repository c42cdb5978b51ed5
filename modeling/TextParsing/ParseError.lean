import TextParsing.Text

/-!
# Failures: what went wrong and where parsing stopped

A `ParseError` is a `Cause` and the text that was left at the point of failure.  The wording of
every cause is `Cause.message`.  Two errors count as equal (`==`) if they read the same and leave
the same rest:

    (a == b) = true ↔ a.message = b.message ∧ a.rest = b.rest          (ParseError.beq_iff)

The place of a failure in its source is a number of bytes, `ParseError.offsetIn`.
-/

namespace TextParsing

/-- Why a parser refuses its input. -/
inductive Cause where
  | literalMissing (literal : Text)
  | newlineMissing
  | numberMissing
  | numberTooLarge (digits : Text)
  | runTooShort (required found : Nat)
  | repetitionTooShort (required found : Nat)
  | sequenceBroken
  | noAlternative
  | patternMismatch (pattern : Text)
  | stated (message : Text)
  deriving DecidableEq

/-- The wording of a cause. -/
def Cause.message : Cause → Text
  | .literalMissing literal => "expected '".toList ++ literal ++ "'".toList
  | .newlineMissing => "no newline".toList
  | .numberMissing => "no unsigned number".toList
  | .numberTooLarge digits => "number too large: ".toList ++ digits
  | .runTooShort required found =>
    "expected at least ".toList ++ Text.decimal required ++
      " matching characters, found ".toList ++ Text.decimal found
  | .repetitionTooShort required found =>
    "expected at least ".toList ++ Text.decimal required ++
      " repetitions, found ".toList ++ Text.decimal found
  | .sequenceBroken => "not a tuple".toList
  | .noAlternative => "no alt match".toList
  | .patternMismatch pattern => "failed to match regex '".toList ++ pattern ++ "'".toList
  | .stated message => message

/-- A failure: its cause and the text that was left when it arose. -/
structure ParseError where
  cause : Cause
  rest : Text

namespace ParseError

/-- The message that a reader sees. -/
def message (e : ParseError) : Text := e.cause.message

/-- Equality of errors compares what they say and what they leave. -/
instance : BEq ParseError := ⟨fun a b => a.message == b.message && a.rest == b.rest⟩

theorem beq_iff {a b : ParseError} : (a == b) = true ↔ a.message = b.message ∧ a.rest = b.rest := by
  change (a.message == b.message && a.rest == b.rest) = true ↔ _
  simp

/-- How many bytes of `source` precede the rest; zero if the rest is longer than `source`. -/
def offsetIn (e : ParseError) (source : Text) : Nat :=
  Text.byteLength source - Text.byteLength e.rest

theorem offsetIn_append (cause : Cause) (before rest : Text) :
    offsetIn ⟨cause, rest⟩ (before ++ rest) = Text.byteLength before := by
  simp [offsetIn]

theorem offsetIn_le (e : ParseError) (source : Text) :
    e.offsetIn source ≤ Text.byteLength source :=
  Nat.sub_le _ _

end ParseError

end TextParsing
