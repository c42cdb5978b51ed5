import TextParsing.Parser

/-!
# Parsers of one place: constants, literals, single characters

`literal s` succeeds exactly on the inputs that begin with `s` and leaves what follows:

    literal s input = some (.success v rest) ↔ v = s ∧ input.text = s ++ rest.text
                                                                       (literal_eq_success_iff)
-/

namespace TextParsing.Parser

/-- Succeeds with `v` and consumes nothing. -/
def constant {α : Type} (v : α) : Parser α := ofFunction (.success v)

/-- Consumes the text `s`. -/
def literal (s : Text) : Parser Text := ofFunction fun input =>
  if s <+: input.text then .success s (input.drop s.length)
  else .failure ⟨.literalMissing s, input.text⟩

/-- Consumes one newline. -/
def newline : Parser Text := (literal ['\n']).orFail .newlineMissing

/-- Consumes one character, whatever it is. -/
def nextChar (input : Input) : Outcome Text :=
  match input.text with
  | c :: _ => .success [c] (input.drop 1)
  | [] => .failure ⟨.stated "end of input".toList, []⟩

/-- Fails with the given message, leaving the input without its first `skipped` characters. -/
def refuse {α : Type} (message : Text) (skipped : Nat) (input : Input) : Outcome α :=
  .failure ⟨.stated message, input.text.drop skipped⟩

theorem literal_eq_success_iff {s v : Text} {input rest : Input} :
    literal s input = some (.success v rest) ↔ v = s ∧ input.text = s ++ rest.text := by
  unfold literal ofFunction
  dsimp only
  split
  · next h =>
    rw [Option.some.injEq, Outcome.success.injEq]
    constructor
    · rintro ⟨rfl, rfl⟩
      exact ⟨rfl, (List.prefix_iff_eq_append.mp h).symm⟩
    · rintro ⟨rfl, h⟩
      exact ⟨rfl, Input.drop_eq_iff_of_text_eq h⟩
  · next h =>
    simp only [Option.some.injEq, reduceCtorEq, false_iff, not_and]
    exact fun _ hs => h ⟨rest.text, hs.symm⟩

theorem newline_eq_success_iff {v : Text} {input rest : Input} :
    newline input = some (.success v rest) ↔ v = ['\n'] ∧ input.text = '\n' :: rest.text := by
  simp [newline, orFail_eq_success_iff, literal_eq_success_iff]

end TextParsing.Parser
