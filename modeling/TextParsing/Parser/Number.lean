import TextParsing.Parser.Run

/-!
# Unsigned 64-bit numbers

`number` reads the longest run of ASCII digits.  Leading zeros are allowed; a value of 2^64 or
more is refused, as is an empty run, and in both cases the whole input is left.
-/

namespace TextParsing.Parser

/-- Consumes the decimal digits of a 64-bit number. -/
def number : Parser UInt64 := fun input =>
  ((runAtLeast 1 Char.isDigit).orFail .numberMissing input).map fun
    | .failure e => .failure e
    | .success digits rest =>
      match Text.word? digits with
      | some n => .success n rest
      | none => .failure ⟨.numberTooLarge digits, input.text⟩

variable {input rest : Input} {digits : Text}

theorem number_of_no_run {e : ParseError}
    (h : runAtLeast 1 Char.isDigit input = some (.failure e)) :
    number input = some (.failure ⟨.numberMissing, input.text⟩) := by
  rw [number, orFail, h]
  rfl

theorem number_of_word {n : UInt64}
    (h : runAtLeast 1 Char.isDigit input = some (.success digits rest))
    (hn : Text.word? digits = some n) : number input = some (.success n rest) := by
  rw [number, orFail_eq_success_iff.mpr h, Option.map_some]
  dsimp only
  rw [hn]

theorem number_of_no_word (h : runAtLeast 1 Char.isDigit input = some (.success digits rest))
    (hn : Text.word? digits = none) :
    number input = some (.failure ⟨.numberTooLarge digits, input.text⟩) := by
  rw [number, orFail_eq_success_iff.mpr h, Option.map_some]
  dsimp only
  rw [hn]

end TextParsing.Parser
