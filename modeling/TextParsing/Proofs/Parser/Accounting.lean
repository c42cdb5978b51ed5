import TextParsing.Parser.Literal
import TextParsing.Parser.Number
import TextParsing.Proofs.Parser.Anchoring
import TextParsing.Proofs.Parser.Combinators

/-!
# Parsers that account for their input

`Accounts reads p` says that the text which a value of `p` stands for, followed by the rest, is the
input.  It passes from parts to sequences, choices and repetitions: what an abandoned part has
consumed is consumed again or left, and a round of a repetition is dropped only if it has consumed
nothing.

    Accounts id (runAtLeast required ok)                                  (accounts_runAtLeast)
    Accounts reads p → Accounts (·.flatMap reads) (repeatAtLeast k p)   (Accounts.repeatAtLeast)
-/

namespace TextParsing.Parser

variable {α β : Type}

/-- Whether the text that the value stands for, followed by the rest, is the input. -/
def Accounts (reads : α → Text) (p : Parser α) : Prop :=
  ∀ input v rest, p input = some (.success v rest) → reads v ++ rest.text = input.text

variable {reads : α → Text}

theorem accounts_literal (s : Text) : Accounts id (literal s) := by
  intro input v rest h
  obtain ⟨rfl, hin⟩ := literal_eq_success_iff.mp h
  exact hin.symm

theorem accounts_newline : Accounts id newline := by
  intro input v rest h
  obtain ⟨rfl, hin⟩ := newline_eq_success_iff.mp h
  exact hin.symm

theorem accounts_runAtLeast (required : Nat) (ok : Char → Bool) :
    Accounts id (runAtLeast required ok) := by
  intro input v rest h
  obtain ⟨-, rfl, hrest⟩ := runAtLeast_eq_success_iff.mp h
  rw [hrest]
  exact List.takeWhile_append_dropWhile

theorem accounts_upTo (marker : Text) : Accounts id (upTo marker) := by
  intro input v rest h
  have h := Option.some.inj h
  dsimp only at h
  split at h
  · cases h
    exact List.take_append_drop _ _
  · cases h
    rw [Input.text_drop, input.length_eq, List.drop_length]
    exact List.append_nil _

/-- A parser for a pattern that can be compiled by itself accounts for its input. -/
theorem accounts_pattern {E : Engine} {s : Text} {q : Pattern} {p : PatternParser}
    (hs : E.compile s = .ok q) (hp : PatternParser.build E.compile s = .ok p) :
    Accounts id p.parse :=
  fun input => PatternParser.anchored_of_compile hs hp input

theorem Accounts.map {p : Parser α} (h : Accounts reads p) {f : α → β} {reads' : β → Text}
    (hf : ∀ v, reads' (f v) = reads v) : Accounts reads' (p.map f) := by
  intro input v rest hv
  obtain ⟨u, hu, rfl⟩ := map_eq_success_iff.mp hv
  rw [hf]
  exact h input u rest hu

theorem Accounts.orElse {p q : Parser α} (hp : Accounts reads p) (hq : Accounts reads q) :
    Accounts reads (orElse p q) := by
  intro input v rest h
  rcases orElse_eq_success_iff.mp h with h | ⟨-, h⟩
  · exact hp input v rest h
  · exact hq input v rest h

theorem accounts_sequence {ps : List (Parser α)} (h : ∀ p ∈ ps, Accounts reads p) :
    Accounts (fun vs => vs.flatMap reads) (sequence ps) := by
  intro input vs rest hs
  rw [sequence_eq_success_iff] at hs
  induction ps generalizing input vs with
  | nil =>
    cases hs
    rfl
  | cons p ps ih =>
    obtain ⟨v, mid, ws, hp, hps, rfl⟩ := inOrder_cons_eq_success_iff.mp hs
    have hmid : ws.flatMap reads ++ rest.text = mid.text :=
      ih (fun q hq => h q (List.mem_cons_of_mem _ hq)) mid ws hps
    show (v :: ws).flatMap reads ++ rest.text = input.text
    rw [List.flatMap_cons, List.append_assoc, hmid]
    exact h p List.mem_cons_self input v mid hp

/-- The values of the rounds account for what the rounds consume. -/
theorem Accounts.rounds {p : Parser α} (h : Accounts reads p) {cursor last : Input} {vs : List α}
    (hr : rounds p cursor = some (vs, last)) : vs.flatMap reads ++ last.text = cursor.text := by
  refine rounds_induction (motive := fun cursor vs last =>
    vs.flatMap reads ++ last.text = cursor.text) ?_ ?_ hr
  · intro cursor _
    rfl
  · intro cursor v rest vs last hp _ ih
    rw [List.flatMap_cons, List.append_assoc, ih]
    exact h cursor v rest hp

theorem Accounts.repeatAtLeast {p : Parser α} (h : Accounts reads p) (required : Nat) :
    Accounts (fun vs => vs.flatMap reads) (repeatAtLeast required p) := by
  intro input vs rest hs
  exact h.rounds (repeatAtLeast_eq_success_iff.mp hs).1

/-! ## How much is consumed -/

theorem Accounts.length_add {p : Parser Text} (h : Accounts id p) {input rest : Input} {v : Text}
    (hv : p input = some (.success v rest)) : v.length + rest.length = input.length := by
  rw [rest.length_eq, input.length_eq, ← h input v rest hv, List.length_append]
  rfl

theorem length_lt_of_number {input rest : Input} {w : UInt64}
    (h : number input = some (.success w rest)) : rest.length < input.length := by
  obtain ⟨o, hp, h⟩ := Option.map_eq_some_iff.mp h
  cases o with
  | failure e => cases h
  | success digits mid =>
    have hrun := orFail_eq_success_iff.mp hp
    have hone := (runAtLeast_eq_success_iff.mp hrun).1
    have hlen := (accounts_runAtLeast 1 Char.isDigit).length_add hrun
    dsimp only at h
    split at h
    · cases h
      omega
    · cases h

/-- A parser of patterns that consumes nothing has an empty text as its value. -/
theorem eq_nil_of_pattern {p : PatternParser} {input rest : Input} {v : Text}
    (h : p.parse input = some (.success v rest)) (hle : input.length ≤ rest.length) : v = [] := by
  obtain ⟨m, -, rfl, rfl⟩ := PatternParser.parse_eq_success_iff.mp h
  have hlen : input.length ≤ input.length - m.stop := hle
  rw [Match.text, ← List.length_eq_zero_iff, List.length_take, List.length_drop]
  have := input.length_eq
  omega

end TextParsing.Parser
