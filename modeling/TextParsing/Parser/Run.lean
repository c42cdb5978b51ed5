import TextParsing.Parser

/-!
# Parsers of runs: characters of one kind, and text up to a marker

`runAtLeast min ok` takes the longest run of characters that satisfy `ok` and counts characters,
not bytes.  `upTo marker` takes the text before the first occurrence of the marker, or all of it.

    runAtLeast required ok input = some (.success v rest) ↔
      required ≤ v.length ∧ v = input.text.takeWhile ok ∧ rest.text = input.text.dropWhile ok
                                                                    (runAtLeast_eq_success_iff)
-/

namespace TextParsing.Parser

/-- Consumes the longest run of characters that satisfy `ok`; it must have at least `required`. -/
def runAtLeast (required : Nat) (ok : Char → Bool) : Parser Text := ofFunction fun input =>
  let run := input.text.takeWhile ok
  if run.length < required then .failure ⟨.runTooShort required run.length, input.text⟩
  else .success run (input.drop run.length)

/-- Consumes the longest run, which may be empty. -/
def run (ok : Char → Bool) : Parser Text := runAtLeast 0 ok

/-- The length that `longRun` requires. -/
def longRunLength : Nat := 2

/-- Consumes the longest run, which must have at least two characters. -/
def longRun (ok : Char → Bool) : Parser Text := runAtLeast longRunLength ok

/-- Consumes the text before the first occurrence of `marker`, or all of it if there is none. -/
def upTo (marker : Text) : Parser Text := ofFunction fun input =>
  match Text.find? marker input.text with
  | some i => .success (input.text.take i) (input.drop i)
  | none => .success input.text (input.drop input.length)

theorem drop_length_takeWhile (ok : Char → Bool) (s : Text) :
    s.drop (s.takeWhile ok).length = s.dropWhile ok := by
  have h : (s.takeWhile ok ++ s.dropWhile ok).drop (s.takeWhile ok).length = s.dropWhile ok :=
    List.drop_left
  rwa [List.takeWhile_append_dropWhile] at h

theorem runAtLeast_eq_success_iff {required : Nat} {ok : Char → Bool} {v : Text}
    {input rest : Input} :
    runAtLeast required ok input = some (.success v rest) ↔
      required ≤ v.length ∧ v = input.text.takeWhile ok ∧ rest.text = input.text.dropWhile ok := by
  unfold runAtLeast ofFunction
  dsimp only
  split
  · next h =>
    simp only [Option.some.injEq, reduceCtorEq, false_iff]
    rintro ⟨hv, rfl, -⟩
    omega
  · next h =>
    rw [Option.some.injEq, Outcome.success.injEq]
    constructor
    · rintro ⟨rfl, rfl⟩
      exact ⟨Nat.not_lt.mp h, rfl, drop_length_takeWhile ok input.text⟩
    · rintro ⟨-, rfl, hr⟩
      exact ⟨rfl, Input.ext (by rw [Input.text_drop, drop_length_takeWhile, hr])⟩

end TextParsing.Parser
