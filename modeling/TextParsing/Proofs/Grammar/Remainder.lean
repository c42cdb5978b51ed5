import TextParsing.Proofs.Grammar.Evaluation
import TextParsing.Proofs.Parser.Remainder

/-!
# What is left after an outcome

If all parsers that an expression contains as functions leave suffixes of their inputs
(`Grammar.Restrained`), so does the expression, whether it succeeds or fails:

    g.Restrained e → LeavesSuffix (e.parser (g.rule d))                        (suffix_of_parse)

Failures of sequences, choices and repetitions leave their own input, whatever their parts do, and
so do those of all primitive parsers (`failsInPlace_of_rollsBack`).  Only `map`, `deferred` and `reference`
pass a failure on as it is, so one that does not leave the input comes from a function that can be
reached through these alone (`Grammar.Exposes`):

    e.parser (g.rule d) input = some (.failure err) → err.rest ≠ input.text →
      ∃ f, g.Exposes e f ∧ f input = .failure err                            (exposes_of_failure)
-/

namespace TextParsing

variable {n : Nat}

/-! ## Expressions -/

namespace Expr

/-- Whether failures of an expression leave its input because of its form alone. -/
def rollsBack : Expr n → Bool
  | function _ => false
  | map _ _ => false
  | deferred _ => false
  | reference _ => false
  | _ => true

theorem failsInPlace_of_rollsBack {e : Expr n} (h : e.rollsBack = true)
    (rule : Fin n → Parser Value) : Parser.FailsInPlace (e.parser rule) := by
  cases e with
  | constant v => exact Parser.failsInPlace_constant v
  | literal s => exact (Parser.failsInPlace_literal s).map _
  | newline => exact (Parser.failsInPlace_orFail _ _).map _
  | number => exact Parser.failsInPlace_number.map _
  | charRun required ok => exact (Parser.failsInPlace_runAtLeast required ok).map _
  | upTo marker => exact (Parser.failsInPlace_upTo marker).map _
  | pattern p => exact (Parser.failsInPlace_pattern p).map _
  | sequence es => exact (Parser.failsInPlace_orFail _ _).map _
  | orElse a b => exact Parser.failsInPlace_orElse _ _
  | repeatAtLeast required a => exact (Parser.failsInPlace_repeatAtLeast required _).map _
  | function f => cases h
  | map f a => cases h
  | deferred a => cases h
  | reference i => cases h

end Expr

/-! ## Grammars -/

namespace Grammar

variable {g : Grammar n} {e : Expr n}

/-! ### Suffixes -/

/-- Whether all functions of an expression, and of the rules to which it refers, leave suffixes. -/
def Restrained (g : Grammar n) (e : Expr n) : Prop :=
  ∀ f, g.HasFunction e f → Parser.LeavesSuffix (Parser.ofFunction f)

theorem Restrained.part {a : Expr n} (h : g.Restrained e) (ha : a ∈ e.parts) : g.Restrained a := by
  intro f hf
  exact h f (.part ha hf)

theorem Restrained.rule {i : Fin n} (h : g.Restrained (.reference i)) : g.Restrained (g i) := by
  intro f hf
  exact h f (.reference hf)

/-- A restrained expression leaves suffixes if all restrained rules do. -/
theorem Restrained.leavesSuffix {rule : Fin n → Parser Value}
    (hr : ∀ i, g.Restrained (g i) → Parser.LeavesSuffix (rule i)) (he : g.Restrained e) :
    Parser.LeavesSuffix (e.parser rule) := by
  induction e using Expr.induction with
  | whole e ih =>
    have ih : ∀ a ∈ e.parts, Parser.LeavesSuffix (a.parser rule) := by
      intro a ha
      exact ih a ha (he.part ha)
    cases e with
    | constant v => exact Parser.leavesSuffix_constant v
    | literal s => exact (Parser.leavesSuffix_literal s).map _
    | newline => exact ((Parser.leavesSuffix_literal _).orFail _).map _
    | number => exact Parser.leavesSuffix_number.map _
    | charRun required ok => exact (Parser.leavesSuffix_runAtLeast required ok).map _
    | upTo marker => exact (Parser.leavesSuffix_upTo marker).map _
    | pattern p => exact (Parser.leavesSuffix_pattern p).map _
    | function f => exact he f (.function f)
    | sequence es =>
      rw [Expr.parser, Expr.parsers_eq_map]
      refine ((Parser.leavesSuffix_inOrder ?_).orFail _).map _
      intro p hp
      obtain ⟨a, ha, rfl⟩ := List.mem_map.mp hp
      exact ih a ha
    | orElse a b => exact (ih a (by simp [Expr.parts])).orElse (ih b (by simp [Expr.parts]))
    | repeatAtLeast required a =>
      exact ((ih a (List.mem_singleton_self a)).repeatAtLeast required).map _
    | map f a => exact (ih a (List.mem_singleton_self a)).map f
    | deferred a => exact ih a (List.mem_singleton_self a)
    | reference i => exact hr i he.rule

/-- The rest of every outcome of a restrained expression is a suffix of the input. -/
theorem suffix_of_parse (he : g.Restrained e) (d : Nat) :
    Parser.LeavesSuffix (e.parser (g.rule d)) := by
  refine he.leavesSuffix fun i => ?_
  refine rule_induction (P := fun i p => g.Restrained (g i) → Parser.LeavesSuffix p) ?_ ?_ d i
  · intro i _ input o h
    cases h
  · intro d hr i hi
    exact hi.leavesSuffix hr

/-! ### Failures -/

/-- Whether a function is reached from an expression through `map`, `deferred` and `reference`
alone. -/
inductive Exposes (g : Grammar n) : Expr n → (Input → Outcome Value) → Prop where
  | function (f : Input → Outcome Value) : Exposes g (.function f) f
  | map {f : Input → Outcome Value} {e : Expr n} (h : Value → Value) (he : Exposes g e f) :
      Exposes g (.map h e) f
  | deferred {f : Input → Outcome Value} {e : Expr n} (he : Exposes g e f) :
      Exposes g (.deferred e) f
  | reference {f : Input → Outcome Value} {i : Fin n} (he : Exposes g (g i) f) :
      Exposes g (.reference i) f

theorem Exposes.hasFunction {f : Input → Outcome Value} (h : g.Exposes e f) :
    g.HasFunction e f := by
  induction h with
  | function f => exact .function f
  | map k _ ih => exact .part (List.mem_singleton_self _) ih
  | deferred _ ih => exact .part (List.mem_singleton_self _) ih
  | reference _ ih => exact .reference ih

/-- A failure that does not leave the input is that of an exposed function, given that this holds of
the rules. -/
theorem exposes_of_parse {rule : Fin n → Parser Value}
    (hr : ∀ i input err, rule i input = some (.failure err) → err.rest ≠ input.text →
      ∃ f, g.Exposes (g i) f ∧ f input = .failure err)
    {input : Input} {err : ParseError} (h : e.parser rule input = some (.failure err))
    (hne : err.rest ≠ input.text) : ∃ f, g.Exposes e f ∧ f input = .failure err := by
  induction e using Expr.induction with
  | whole e ih =>
    cases e with
    | function f => exact ⟨f, .function f, Option.some.inj h⟩
    | map k a =>
      obtain ⟨f, hf, herr⟩ := ih a (List.mem_singleton_self a) (Parser.map_eq_failure_iff.mp h)
      exact ⟨f, .map k hf, herr⟩
    | deferred a =>
      obtain ⟨f, hf, herr⟩ := ih a (List.mem_singleton_self a) h
      exact ⟨f, .deferred hf, herr⟩
    | reference i =>
      obtain ⟨f, hf, herr⟩ := hr i input err h hne
      exact ⟨f, .reference hf, herr⟩
    | _ => exact absurd (Expr.failsInPlace_of_rollsBack rfl rule input err h) hne

theorem exposes_of_failure {d : Nat} {input : Input} {err : ParseError}
    (h : e.parser (g.rule d) input = some (.failure err)) (hne : err.rest ≠ input.text) :
    ∃ f, g.Exposes e f ∧ f input = .failure err := by
  refine exposes_of_parse (fun i => ?_) h hne
  refine rule_induction (P := fun i p => ∀ input err, p input = some (.failure err) →
    err.rest ≠ input.text → ∃ f, g.Exposes (g i) f ∧ f input = .failure err) ?_ ?_ d i
  · intro i input err h
    cases h
  · intro d hr i input err h hne
    exact exposes_of_parse hr h hne

/-- What the outcome of an expression leaves: a suffix of the input, if all functions leave
suffixes; the input itself in a failure, if all functions fail in place; and in general, a failure
that leaves something else is that of a function which the expression exposes.  Sequences, choices
and repetitions leave their own input when they fail, whatever their parts and the rules do. -/
theorem remainder_discipline {input : Input} {o : Outcome Value} (h : g.parse e input = some o) :
    ((∀ f, g.HasFunction e f → ∀ x, (f x).rest.text <:+ x.text) → o.rest.text <:+ input.text) ∧
    ((∀ f, g.HasFunction e f → ∀ x err, f x = .failure err → err.rest = x.text) →
      ∀ err, o = .failure err → err.rest = input.text) ∧
    (∀ err, o = .failure err → err.rest ≠ input.text →
      ∃ f, g.Exposes e f ∧ f input = .failure err) ∧
    (∀ (rule : Fin n → Parser Value) x err,
      (∀ es, (Expr.sequence es).parser rule x = some (.failure err) → err.rest = x.text) ∧
      (∀ a b, (Expr.orElse a b).parser rule x = some (.failure err) → err.rest = x.text) ∧
      (∀ k a, (Expr.repeatAtLeast k a).parser rule x = some (.failure err) →
        err.rest = x.text)) := by
  refine ⟨?_, ?_, ?_, ?_⟩
  · intro hf
    refine suffix_of_parse (fun f hfun => ?_) _ input o h
    intro x o' ho'
    obtain rfl := Option.some.inj ho'
    exact hf f hfun x
  · rintro hf err rfl
    by_cases heq : err.rest = input.text
    · exact heq
    · obtain ⟨f, hexp, herr⟩ := exposes_of_failure h heq
      exact hf f hexp.hasFunction input err herr
  · rintro err rfl hne
    exact exposes_of_failure h hne
  · intro rule x err
    refine ⟨?_, ?_, ?_⟩
    · intro es
      exact Expr.failsInPlace_of_rollsBack rfl rule x err
    · intro a b
      exact Expr.failsInPlace_of_rollsBack rfl rule x err
    · intro k a
      exact Expr.failsInPlace_of_rollsBack rfl rule x err

/-- A choice between a literal and a rule that fails one character further on: the choice leaves its
input, the rule alone does not. -/
theorem remainder_discipline_fail :
    ∃ (g : Grammar 1) (err : ParseError),
      g.parse (.map id (.deferred (.reference 0))) (.ofText ['a', 'b']) = some (.failure err) ∧
      err.rest = ['b'] ∧ (Outcome.failure (α := Value) err).rest.text <:+ ['a', 'b'] ∧
      (∃ f, g.Exposes (.map id (.deferred (.reference 0))) f ∧
        f (.ofText ['a', 'b']) = .failure err) ∧
      ∀ err', g.parse (.orElse (.literal ['b']) (.reference 0)) (.ofText ['a', 'b']) =
        some (.failure err') → err'.rest = ['a', 'b'] := by
  have h : parse (fun _ : Fin 1 => .fail ['m'] 1) (.map id (.deferred (.reference 0)))
      (.ofText ['a', 'b']) = some (.failure ⟨.stated ['m'], ['b']⟩) := rfl
  obtain ⟨hsuffix, -, hexposes, hrolls⟩ := remainder_discipline h
  refine ⟨_, _, h, rfl, hsuffix ?_, hexposes _ rfl (by decide), ?_⟩
  · intro f hf x
    rcases hf.mem_functions with hf | ⟨i, hf⟩
    · cases hf
    · obtain rfl := List.mem_singleton.mp hf
      exact List.drop_suffix 1 x.text
  · intro err'
    exact (hrolls _ _ err').2.1 _ _

end Grammar

end TextParsing
