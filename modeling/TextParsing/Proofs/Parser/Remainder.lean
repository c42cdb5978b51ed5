import TextParsing.Parser.Literal
import TextParsing.Parser.Matching
import TextParsing.Parser.Number
import TextParsing.Proofs.Parser.Combinators

/-!
# What parsers leave

A parser may leave a suffix of its input in every outcome (`LeavesSuffix`), and it may leave all of
its input when it fails (`FailsInPlace`).  All primitive parsers do both.  Sequences, choices and
repetitions leave suffixes if their parts do, and fail in place whatever their parts do:

    (∀ p ∈ ps, LeavesSuffix p) → LeavesSuffix (inOrder ps)                  (leavesSuffix_inOrder)
    FailsInPlace (orElse p q)                                              (failsInPlace_orElse)
-/

namespace TextParsing.Parser

variable {α β : Type}

/-- Whether the rest of every outcome is a suffix of the input. -/
def LeavesSuffix (p : Parser α) : Prop :=
  ∀ input o, p input = some o → o.rest.text <:+ input.text

/-- Whether every failure leaves the input. -/
def FailsInPlace (p : Parser α) : Prop :=
  ∀ input e, p input = some (.failure e) → e.rest = input.text

/-! ## Suffixes -/

theorem leavesSuffix_constant (v : α) : LeavesSuffix (constant v) := by
  intro input o h
  cases h
  exact List.suffix_refl _

theorem leavesSuffix_literal (s : Text) : LeavesSuffix (literal s) := by
  intro input o h
  obtain rfl := Option.some.inj h
  dsimp only
  split
  · exact List.drop_suffix _ _
  · exact List.suffix_refl _

theorem leavesSuffix_nextChar : LeavesSuffix (ofFunction nextChar) := by
  intro input o h
  obtain rfl := Option.some.inj h
  unfold nextChar
  split
  · exact List.drop_suffix 1 input.text
  · exact List.nil_suffix

theorem leavesSuffix_runAtLeast (required : Nat) (ok : Char → Bool) :
    LeavesSuffix (runAtLeast required ok) := by
  intro input o h
  obtain rfl := Option.some.inj h
  dsimp only
  split
  · exact List.suffix_refl _
  · exact List.drop_suffix _ _

theorem leavesSuffix_upTo (marker : Text) : LeavesSuffix (upTo marker) := by
  intro input o h
  obtain rfl := Option.some.inj h
  dsimp only
  split <;> exact List.drop_suffix _ _

theorem leavesSuffix_pattern (p : PatternParser) : LeavesSuffix p.parse := by
  intro input o h
  obtain rfl := Option.some.inj h
  dsimp only
  split
  · exact List.drop_suffix _ _
  · exact List.suffix_refl _

theorem LeavesSuffix.map {p : Parser α} (h : LeavesSuffix p) (f : α → β) :
    LeavesSuffix (p.map f) := by
  intro input o ho
  obtain ⟨o', hp, rfl⟩ := Option.map_eq_some_iff.mp ho
  have := h input o' hp
  cases o' with
  | success v rest => exact this
  | failure e => exact this

theorem LeavesSuffix.orFail {p : Parser α} (h : LeavesSuffix p) (cause : Cause) :
    LeavesSuffix (p.orFail cause) := by
  intro input o ho
  obtain ⟨o', hp, rfl⟩ := Option.map_eq_some_iff.mp ho
  cases o' with
  | success v rest => exact h input _ hp
  | failure e => exact List.suffix_refl _

theorem leavesSuffix_number : LeavesSuffix number := by
  intro input o ho
  obtain ⟨o', hp, rfl⟩ := Option.map_eq_some_iff.mp ho
  have hs := (leavesSuffix_runAtLeast 1 Char.isDigit).orFail .numberMissing input o' hp
  split
  · exact hs
  · split
    · exact hs
    · exact List.suffix_refl _

theorem LeavesSuffix.orElse {p q : Parser α} (hp : LeavesSuffix p) (hq : LeavesSuffix q) :
    LeavesSuffix (orElse p q) := by
  intro input o ho
  obtain ⟨o', hpo, ho⟩ := Option.bind_eq_some_iff.mp ho
  cases o' with
  | success v rest =>
    obtain rfl := Option.some.inj ho
    exact hp input _ hpo
  | failure e => exact hq.orFail _ input o ho

theorem leavesSuffix_inOrder {ps : List (Parser α)} (h : ∀ p ∈ ps, LeavesSuffix p) :
    LeavesSuffix (inOrder ps) := by
  induction ps with
  | nil => exact leavesSuffix_constant []
  | cons p ps ih =>
    intro input o ho
    obtain ⟨o', hp, ho⟩ := Option.bind_eq_some_iff.mp ho
    have hfirst := h p List.mem_cons_self input o' hp
    cases o' with
    | failure e =>
      obtain rfl := Option.some.inj ho
      exact hfirst
    | success v rest =>
      have hps := (ih fun q hq => h q (List.mem_cons_of_mem _ hq)).map (v :: ·)
      exact (hps rest o ho).trans hfirst

theorem suffix_of_rounds {p : Parser α} (h : LeavesSuffix p) {cursor last : Input} {vs : List α}
    (hr : rounds p cursor = some (vs, last)) : last.text <:+ cursor.text := by
  refine rounds_induction (motive := fun cursor _ last => last.text <:+ cursor.text) ?_ ?_ hr
  · intro cursor _
    exact List.suffix_refl _
  · intro cursor v rest vs last hp _ ih
    exact ih.trans (h cursor _ hp)

theorem LeavesSuffix.repeatAtLeast {p : Parser α} (h : LeavesSuffix p) (required : Nat) :
    LeavesSuffix (repeatAtLeast required p) := by
  intro input o ho
  obtain ⟨⟨vs, last⟩, hr, rfl⟩ := Option.map_eq_some_iff.mp ho
  dsimp only
  split
  · exact List.suffix_refl _
  · exact suffix_of_rounds h hr

theorem LeavesSuffix.length_le {p : Parser α} (h : LeavesSuffix p) {input rest : Input} {v : α}
    (hv : p input = some (.success v rest)) : rest.length ≤ input.length := by
  rw [rest.length_eq, input.length_eq]
  exact (h input _ hv).length_le

/-! ## Failures in place -/

theorem failsInPlace_constant (v : α) : FailsInPlace (constant v) := by
  intro input e h
  cases h

theorem failsInPlace_orFail (cause : Cause) (p : Parser α) : FailsInPlace (p.orFail cause) := by
  intro input e h
  rw [(orFail_eq_failure_iff.mp h).1]

theorem FailsInPlace.map {p : Parser α} (h : FailsInPlace p) (f : α → β) :
    FailsInPlace (p.map f) := by
  intro input e he
  exact h input e (map_eq_failure_iff.mp he)

theorem failsInPlace_literal (s : Text) : FailsInPlace (literal s) := by
  intro input e h
  have h := Option.some.inj h
  dsimp only at h
  split at h
  · cases h
  · cases h
    rfl

theorem failsInPlace_runAtLeast (required : Nat) (ok : Char → Bool) :
    FailsInPlace (runAtLeast required ok) := by
  intro input e h
  have h := Option.some.inj h
  dsimp only at h
  split at h
  · cases h
    rfl
  · cases h

theorem failsInPlace_upTo (marker : Text) : FailsInPlace (upTo marker) := by
  intro input e h
  have h := Option.some.inj h
  dsimp only at h
  split at h <;> cases h

theorem failsInPlace_pattern (p : PatternParser) : FailsInPlace p.parse := by
  intro input e h
  have h := Option.some.inj h
  dsimp only at h
  split at h
  · cases h
  · cases h
    rfl

theorem failsInPlace_number : FailsInPlace number := by
  intro input e h
  obtain ⟨o, hp, h⟩ := Option.map_eq_some_iff.mp h
  cases o with
  | failure e' =>
    cases h
    exact failsInPlace_orFail _ _ input e hp
  | success digits rest =>
    dsimp only at h
    split at h
    · cases h
    · cases h
      rfl

theorem failsInPlace_orElse (p q : Parser α) : FailsInPlace (orElse p q) := by
  intro input e h
  rw [eq_of_orElse_eq_failure h]

theorem failsInPlace_repeatAtLeast (required : Nat) (p : Parser α) :
    FailsInPlace (repeatAtLeast required p) := by
  intro input e h
  exact rest_of_repeatAtLeast_eq_failure h

end TextParsing.Parser
