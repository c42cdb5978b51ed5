import TextParsing.Proofs.Grammar.Remainder
import TextParsing.Proofs.Parser.Accounting

/-!
# Expressions that may succeed without consuming anything

`Grammar.Nullable g` tells by the form of an expression whether it may consume nothing, with a
least fixpoint over the rules.  It errs on the safe side only: a success that consumes nothing is
one of a nullable expression.

    g.Restrained e → e.parser (g.rule d) input = some (.success v rest) →
      input.length ≤ rest.length → g.Nullable e                             (nullable_of_parse)

A repetition that asks for a round is not nullable (`Parser.length_lt_of_repeatAtLeast`).
-/

namespace TextParsing

variable {n : Nat}

namespace Grammar

/-! ## Nullable expressions -/

/-- Whether an expression may succeed without consuming anything. -/
inductive Nullable (g : Grammar n) : Expr n → Prop where
  | constant (v : Value) : Nullable g (.constant v)
  | literal : Nullable g (.literal [])
  | charRun (ok : Char → Bool) : Nullable g (.charRun 0 ok)
  | upTo (marker : Text) : Nullable g (.upTo marker)
  | pattern {p : PatternParser} {input rest : Input}
      (h : p.parse input = some (.success [] rest)) : Nullable g (.pattern p)
  | function {f : Input → Outcome Value} {input rest : Input} {v : Value}
      (h : f input = .success v rest) (hle : input.length ≤ rest.length) : Nullable g (.function f)
  | sequence {es : List (Expr n)} (h : ∀ e ∈ es, Nullable g e) : Nullable g (.sequence es)
  | first {a b : Expr n} (h : Nullable g a) : Nullable g (.orElse a b)
  | second {a b : Expr n} (h : Nullable g b) : Nullable g (.orElse a b)
  | repeatAtLeast (e : Expr n) : Nullable g (.repeatAtLeast 0 e)
  | map {e : Expr n} (f : Value → Value) (h : Nullable g e) : Nullable g (.map f e)
  | deferred {e : Expr n} (h : Nullable g e) : Nullable g (.deferred e)
  | reference {i : Fin n} (h : Nullable g (g i)) : Nullable g (.reference i)

variable {g : Grammar n} {rule : Fin n → Parser Value}

/-- What is assumed of parsers that stand for the rules: those of restrained rules leave suffixes, and
if they consume nothing, the rule is nullable. -/
structure Measured (g : Grammar n) (rule : Fin n → Parser Value) : Prop where
  suffix : ∀ i, g.Restrained (g i) → Parser.LeavesSuffix (rule i)
  nullable : ∀ i, g.Restrained (g i) → ∀ input v rest, rule i input = some (.success v rest) →
    input.length ≤ rest.length → g.Nullable (g i)

theorem nullable_of_inOrder {es : List (Expr n)}
    (hs : ∀ e ∈ es, Parser.LeavesSuffix (e.parser rule))
    (hnull : ∀ e ∈ es, ∀ input v rest, e.parser rule input = some (.success v rest) →
      input.length ≤ rest.length → g.Nullable e)
    {input rest : Input} {vs : List Value}
    (h : Parser.inOrder (es.map (Expr.parser rule)) input = some (.success vs rest))
    (hle : input.length ≤ rest.length) : ∀ e ∈ es, g.Nullable e := by
  induction es generalizing input vs with
  | nil =>
    intro e he
    cases he
  | cons a es ih =>
    obtain ⟨v, mid, ws, ha, hes, rfl⟩ := Parser.inOrder_cons_eq_success_iff.mp h
    have hrest : Parser.LeavesSuffix (Parser.inOrder (es.map (Expr.parser rule))) := by
      refine Parser.leavesSuffix_inOrder ?_
      intro p hp
      obtain ⟨e, he, rfl⟩ := List.mem_map.mp hp
      exact hs e (List.mem_cons_of_mem _ he)
    have hmid := (hs a List.mem_cons_self).length_le ha
    have hlast := hrest.length_le hes
    intro e he
    rcases List.mem_cons.mp he with rfl | he
    · exact hnull e List.mem_cons_self input v mid ha (by omega)
    · exact ih (fun b hb => hs b (List.mem_cons_of_mem _ hb))
        (fun b hb => hnull b (List.mem_cons_of_mem _ hb)) hes (by omega) e he

/-- A restrained expression that succeeds and consumes nothing is nullable. -/
theorem Measured.nullable_of_parse (hm : g.Measured rule) {e : Expr n} (he : g.Restrained e)
    {input rest : Input} {v : Value} (h : e.parser rule input = some (.success v rest))
    (hle : input.length ≤ rest.length) : g.Nullable e := by
  induction e using Expr.induction generalizing input rest v with
  | whole e ih =>
    have hpart : ∀ a ∈ e.parts, ∀ {input rest : Input} {v : Value},
        a.parser rule input = some (.success v rest) → input.length ≤ rest.length →
          g.Nullable a := by
      intro a ha _ _ _
      exact ih a ha (he.part ha)
    cases e with
    | constant u => exact .constant u
    | literal s =>
      obtain ⟨u, hu, rfl⟩ := Parser.map_eq_success_iff.mp h
      have hlen := (Parser.accounts_literal s).length_add hu
      obtain ⟨rfl, -⟩ := Parser.literal_eq_success_iff.mp hu
      obtain rfl : u = [] := List.eq_nil_of_length_eq_zero (by omega)
      exact .literal
    | newline =>
      obtain ⟨u, hu, rfl⟩ := Parser.map_eq_success_iff.mp h
      have hlen := Parser.accounts_newline.length_add hu
      obtain ⟨rfl, -⟩ := Parser.newline_eq_success_iff.mp hu
      rw [List.length_singleton] at hlen
      omega
    | number =>
      obtain ⟨w, hw, rfl⟩ := Parser.map_eq_success_iff.mp h
      have := Parser.length_lt_of_number hw
      omega
    | charRun required ok =>
      obtain ⟨u, hu, rfl⟩ := Parser.map_eq_success_iff.mp h
      have hlen := (Parser.accounts_runAtLeast required ok).length_add hu
      have hreq := (Parser.runAtLeast_eq_success_iff.mp hu).1
      obtain rfl : required = 0 := by omega
      exact .charRun ok
    | upTo marker => exact .upTo marker
    | pattern p =>
      obtain ⟨u, hu, rfl⟩ := Parser.map_eq_success_iff.mp h
      obtain rfl := Parser.eq_nil_of_pattern hu hle
      exact .pattern hu
    | function f => exact .function (Option.some.inj h) hle
    | sequence es =>
      obtain ⟨vs, hvs, rfl⟩ := Parser.map_eq_success_iff.mp h
      rw [Parser.sequence_eq_success_iff, Expr.parsers_eq_map] at hvs
      refine .sequence (nullable_of_inOrder ?_ ?_ hvs hle)
      · intro a ha
        exact (he.part ha).leavesSuffix hm.suffix
      · intro a ha _ _ _
        exact hpart a ha
    | orElse a b =>
      rcases Parser.orElse_eq_success_iff.mp h with h | ⟨-, h⟩
      · exact .first (hpart a (by simp [Expr.parts]) h hle)
      · exact .second (hpart b (by simp [Expr.parts]) h hle)
    | repeatAtLeast required a =>
      obtain ⟨vs, hvs, rfl⟩ := Parser.map_eq_success_iff.mp h
      cases required with
      | zero => exact .repeatAtLeast a
      | succ required =>
        have := Parser.length_lt_of_repeatAtLeast hvs
        omega
    | map k a =>
      obtain ⟨u, hu, rfl⟩ := Parser.map_eq_success_iff.mp h
      exact .map k (hpart a (List.mem_singleton_self a) hu hle)
    | deferred a => exact .deferred (hpart a (List.mem_singleton_self a) h hle)
    | reference i => exact .reference (hm.nullable i he.rule input v rest h hle)

/-- The rules of a grammar are measured at every depth. -/
theorem measured_rule (g : Grammar n) (d : Nat) : g.Measured (g.rule d) := by
  induction d with
  | zero =>
    refine ⟨?_, ?_⟩
    · intro i _ input o h
      cases h
    · intro i _ input v rest h
      cases h
  | succ d ih =>
    refine ⟨?_, ?_⟩
    · intro i hi
      exact hi.leavesSuffix ih.suffix
    · intro i hi input v rest
      exact ih.nullable_of_parse hi

end Grammar

end TextParsing
