import TextParsing.Parser

/-!
# Repetition

`rounds p` runs `p` again and again on the rest of the round before.  It stops where the text is
used up, where `p` fails, and where `p` succeeds without consuming anything; the value of such an
empty round is dropped.  A parser reads a prefix of its input, so that a rest which is not shorter is the
input itself; lengths in bytes tell the same (`roundsFrom_of_suffix`).  `repeatAtLeast` asks for a number of rounds and fails at its own input.

    p cursor = some (.success v rest) → rest.length < cursor.length →
      rounds p cursor = (rounds p rest).map fun (vs, last) => (v :: vs, last)    (rounds_of_success)
-/

namespace TextParsing.Parser

variable {α : Type}

/-- Runs `p` as often as possible; the values found before come first, the last of them at the head
of `found`. -/
def roundsFrom (p : Parser α) (found : List α) (cursor : Input) : Option (List α × Input) :=
  if cursor.length = 0 then some (found.reverse, cursor)
  else
    match p cursor with
    | none => none
    | some (.failure _) => some (found.reverse, cursor)
    | some (.success v rest) =>
      if rest.length < cursor.length then roundsFrom p (v :: found) rest
      else some (found.reverse, cursor)
termination_by cursor.length

/-- The values of all rounds of `p` and the input that they leave. -/
def rounds (p : Parser α) (cursor : Input) : Option (List α × Input) := roundsFrom p [] cursor

/-- Repeats `p`; there must be at least `required` rounds. -/
def repeatAtLeast (required : Nat) (p : Parser α) : Parser (List α) := fun input =>
  (rounds p input).map fun (vs, rest) =>
    if vs.length < required then .failure ⟨.repetitionTooShort required vs.length, input.text⟩
    else .success vs rest

/-- Repeats `p` any number of times. -/
def many (p : Parser α) : Parser (List α) := repeatAtLeast 0 p

/-- The number of rounds that `several` requires. -/
def severalRounds : Nat := 2

/-- Repeats `p` at least twice. -/
def several (p : Parser α) : Parser (List α) := repeatAtLeast severalRounds p

/-! ## The rounds, one by one -/

theorem roundsFrom_eq (p : Parser α) (found : List α) (cursor : Input) :
    roundsFrom p found cursor =
      (rounds p cursor).map fun (vs, last) => (found.reverse ++ vs, last) := by
  unfold rounds
  generalize hn : cursor.length = n
  induction n using Nat.strongRecOn generalizing found cursor with
  | ind n ih =>
    rw [roundsFrom, roundsFrom]
    split
    · simp
    · cases p cursor with
      | none => rfl
      | some o =>
        cases o with
        | failure e => simp
        | success v rest =>
          dsimp only
          split
          · next hlt =>
            rw [hn] at hlt
            rw [ih _ hlt (v :: found) rest rfl, ih _ hlt [v] rest rfl, Option.map_map]
            congr 1
            funext r
            simp
          · simp

theorem rounds_of_length_eq_zero {p : Parser α} {cursor : Input} (h : cursor.length = 0) :
    rounds p cursor = some ([], cursor) := by
  rw [rounds, roundsFrom, if_pos h]
  rfl

theorem rounds_of_failure {p : Parser α} {cursor : Input} {e : ParseError}
    (h : p cursor = some (.failure e)) : rounds p cursor = some ([], cursor) := by
  rw [rounds, roundsFrom, h]
  split <;> rfl

theorem rounds_of_idle {p : Parser α} {cursor rest : Input} {v : α}
    (h : p cursor = some (.success v rest)) (hle : cursor.length ≤ rest.length) :
    rounds p cursor = some ([], cursor) := by
  rw [rounds, roundsFrom, h]
  dsimp only
  rw [if_neg (Nat.not_lt.mpr hle)]
  split <;> rfl

theorem rounds_of_success {p : Parser α} {cursor rest : Input} {v : α}
    (h : p cursor = some (.success v rest)) (hlt : rest.length < cursor.length) :
    rounds p cursor = (rounds p rest).map fun (vs, last) => (v :: vs, last) := by
  rw [rounds, roundsFrom, h, if_neg (by omega)]
  dsimp only
  rw [if_pos hlt, roundsFrom_eq]
  rfl

end TextParsing.Parser
