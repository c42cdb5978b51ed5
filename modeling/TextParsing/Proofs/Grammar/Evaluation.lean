import TextParsing.Grammar
import TextParsing.Proofs.Parser.Combinators

/-!
# Evaluating expressions: induction, function leaves, depth of references

An expression is taken apart by `Expr.parts`, and `Expr.induction` proves a property of all
expressions from that of their parts.  `Expr.functions` are the parsers that are given as functions
inside an expression, `Grammar.HasFunction` those inside the expression and the rules to which it
refers, directly or through other rules.

Unfolding rules deeper only adds answers:

    rule i x = some o → deeper i x = some o  for all i, x  implies the same for every
    expression                                                                (extends_parse)
    d ≤ d' → e.parser (g.rule d) input = some o → e.parser (g.rule d') input = some o
                                                                              (parser_rule_mono)
-/

namespace TextParsing

variable {n : Nat}

namespace Expr

/-! ## Parts and functions -/

/-- The expressions that an expression is built from. -/
def parts : Expr n → List (Expr n)
  | sequence es => es
  | orElse a b => [a, b]
  | repeatAtLeast _ e => [e]
  | map _ e => [e]
  | deferred e => [e]
  | _ => []

theorem sizeOf_lt_of_mem_parts {a e : Expr n} (h : a ∈ e.parts) : sizeOf a < sizeOf e := by
  cases e with
  | sequence es =>
    have := List.sizeOf_lt_of_mem (show a ∈ es from h)
    simp only [sequence.sizeOf_spec]
    omega
  | orElse b c =>
    simp only [parts, List.mem_cons, List.not_mem_nil, or_false] at h
    simp only [orElse.sizeOf_spec]
    rcases h with rfl | rfl <;> omega
  | repeatAtLeast _ b =>
    obtain rfl := List.mem_singleton.mp h
    simp only [repeatAtLeast.sizeOf_spec]
    omega
  | map _ b =>
    obtain rfl := List.mem_singleton.mp h
    simp only [map.sizeOf_spec]
    omega
  | deferred b =>
    obtain rfl := List.mem_singleton.mp h
    simp only [deferred.sizeOf_spec]
    omega
  | _ => cases h

/-- Induction on an expression: a property that passes from the parts to the whole. -/
@[elab_as_elim]
theorem induction {motive : Expr n → Prop}
    (whole : ∀ e, (∀ a ∈ e.parts, motive a) → motive e) (e : Expr n) : motive e :=
  whole e fun a _ => induction whole a
termination_by sizeOf e
decreasing_by
  next h => exact sizeOf_lt_of_mem_parts h

mutual

/-- The parsers that are given as functions inside an expression. -/
def functions : Expr n → List (Input → Outcome Value)
  | function f => [f]
  | sequence es => functionsAll es
  | orElse a b => functions a ++ functions b
  | repeatAtLeast _ e => functions e
  | map _ e => functions e
  | deferred e => functions e
  | _ => []

/-- The parsers that are given as functions inside several expressions. -/
def functionsAll : List (Expr n) → List (Input → Outcome Value)
  | [] => []
  | e :: es => functions e ++ functionsAll es

end

theorem functions_subset_functionsAll {a : Expr n} {es : List (Expr n)} (h : a ∈ es) :
    a.functions ⊆ functionsAll es := by
  induction es with
  | nil => cases h
  | cons e es ih =>
    intro f hf
    rw [functionsAll, List.mem_append]
    rcases List.mem_cons.mp h with rfl | h
    · exact .inl hf
    · exact .inr (ih h hf)

theorem functions_subset_of_mem_parts {a e : Expr n} (h : a ∈ e.parts) :
    a.functions ⊆ e.functions := by
  cases e with
  | sequence es => exact functions_subset_functionsAll h
  | orElse b c =>
    simp only [parts, List.mem_cons, List.not_mem_nil, or_false] at h
    rcases h with rfl | rfl
    · exact List.subset_append_left _ _
    · exact List.subset_append_right _ _
  | repeatAtLeast _ b =>
    obtain rfl := List.mem_singleton.mp h
    exact List.Subset.refl _
  | map _ b =>
    obtain rfl := List.mem_singleton.mp h
    exact List.Subset.refl _
  | deferred b =>
    obtain rfl := List.mem_singleton.mp h
    exact List.Subset.refl _
  | _ => cases h

end Expr

/-! ## Rules -/

namespace Grammar

/-- Whether a parser is given as a function in an expression, or in a rule to which the expression
refers, directly or through other rules. -/
inductive HasFunction (g : Grammar n) : Expr n → (Input → Outcome Value) → Prop where
  | function (f : Input → Outcome Value) : HasFunction g (.function f) f
  | part {e a : Expr n} {f : Input → Outcome Value} (ha : a ∈ e.parts) (h : HasFunction g a f) :
      HasFunction g e f
  | reference {i : Fin n} {f : Input → Outcome Value} (h : HasFunction g (g i) f) :
      HasFunction g (.reference i) f

/-- Only the functions that are written in the expression or in some rule need to be looked at. -/
theorem HasFunction.mem_functions {g : Grammar n} {e : Expr n} {f : Input → Outcome Value}
    (h : g.HasFunction e f) : f ∈ e.functions ∨ ∃ i, f ∈ (g i).functions := by
  induction h with
  | function f => exact .inl (List.mem_singleton_self f)
  | part ha _ ih =>
    rcases ih with h | h
    · exact .inl (Expr.functions_subset_of_mem_parts ha h)
    · exact .inr h
  | @reference i f _ ih =>
    rcases ih with h | h
    · exact .inr ⟨i, h⟩
    · exact .inr h

/-- A property of parsers that is kept from the rules of one depth to those of the next holds of the
rules at every depth. -/
theorem rule_induction {g : Grammar n} {P : Fin n → Parser Value → Prop}
    (silent : ∀ i, P i Parser.silent)
    (deeper : ∀ d, (∀ i, P i (g.rule d i)) → ∀ i, P i ((g i).parser (g.rule d))) (d : Nat)
    (i : Fin n) : P i (g.rule d i) := by
  induction d generalizing i with
  | zero => exact silent i
  | succ d ih => exact deeper d ih i

end Grammar

/-! ## More answers -/

namespace Parser

variable {α β : Type}

/-- Whether `q` answers wherever `p` does, and in the same way. -/
def Extends (q p : Parser α) : Prop := ∀ input o, p input = some o → q input = some o

theorem Extends.map {p q : Parser α} (f : α → β) (h : Extends q p) :
    Extends (q.map f) (p.map f) := by
  intro input o ho
  obtain ⟨o', hp, rfl⟩ := Option.map_eq_some_iff.mp ho
  exact Option.map_eq_some_iff.mpr ⟨o', h _ _ hp, rfl⟩

theorem Extends.orFail {p q : Parser α} (cause : Cause) (h : Extends q p) :
    Extends (q.orFail cause) (p.orFail cause) := by
  intro input o ho
  obtain ⟨o', hp, rfl⟩ := Option.map_eq_some_iff.mp ho
  exact Option.map_eq_some_iff.mpr ⟨o', h _ _ hp, rfl⟩

theorem Extends.orElse {p p' q q' : Parser α} (hp : Extends p' p) (hq : Extends q' q) :
    Extends (orElse p' q') (orElse p q) := by
  intro input o ho
  obtain ⟨o', hp', ho⟩ := Option.bind_eq_some_iff.mp ho
  refine Option.bind_eq_some_iff.mpr ⟨o', hp _ _ hp', ?_⟩
  cases o' with
  | success v rest => exact ho
  | failure e => exact hq.orFail _ _ _ ho

theorem Extends.inOrder {γ : Type} {p q : γ → Parser α} {es : List γ}
    (h : ∀ e ∈ es, Extends (q e) (p e)) : Extends (inOrder (es.map q)) (inOrder (es.map p)) := by
  induction es with
  | nil => exact fun _ _ ho => ho
  | cons e es ih =>
    intro input o ho
    obtain ⟨o', hp, ho⟩ := Option.bind_eq_some_iff.mp ho
    refine Option.bind_eq_some_iff.mpr ⟨o', h e List.mem_cons_self _ _ hp, ?_⟩
    cases o' with
    | failure e => exact ho
    | success v rest =>
      obtain ⟨o'', hps, rfl⟩ := Option.map_eq_some_iff.mp ho
      have hqs := ih (fun a ha => h a (List.mem_cons_of_mem _ ha)) _ _ hps
      exact Option.map_eq_some_iff.mpr ⟨o'', hqs, rfl⟩

theorem Extends.rounds {p q : Parser α} (h : Extends q p) {cursor last : Input} {vs : List α}
    (hr : rounds p cursor = some (vs, last)) : rounds q cursor = some (vs, last) := by
  generalize hn : cursor.length = n
  induction n using Nat.strongRecOn generalizing cursor vs with
  | ind n ih =>
    by_cases h0 : cursor.length = 0
    · rw [rounds_of_length_eq_zero h0] at hr ⊢
      exact hr
    · cases hp : p cursor with
      | none =>
        rw [rounds_of_none h0 hp] at hr
        cases hr
      | some o =>
        cases o with
        | failure e =>
          rw [rounds_of_failure hp] at hr
          rw [rounds_of_failure (h _ _ hp)]
          exact hr
        | success v rest =>
          by_cases hlt : rest.length < cursor.length
          · rw [rounds_of_success hp hlt] at hr
            rw [rounds_of_success (h _ _ hp) hlt]
            obtain ⟨⟨ws, end_⟩, hw, he⟩ := Option.map_eq_some_iff.mp hr
            cases he
            exact Option.map_eq_some_iff.mpr ⟨(ws, last), ih rest.length (hn ▸ hlt) hw rfl, rfl⟩
          · rw [rounds_of_idle hp (Nat.not_lt.mp hlt)] at hr
            rw [rounds_of_idle (h _ _ hp) (Nat.not_lt.mp hlt)]
            exact hr

theorem Extends.repeatAtLeast {p q : Parser α} (required : Nat) (h : Extends q p) :
    Extends (repeatAtLeast required q) (repeatAtLeast required p) := by
  intro input o ho
  obtain ⟨⟨vs, last⟩, hr, rfl⟩ := Option.map_eq_some_iff.mp ho
  exact Option.map_eq_some_iff.mpr ⟨(vs, last), h.rounds hr, rfl⟩

end Parser

theorem Expr.extends_parse {rule deeper : Fin n → Parser Value}
    (h : ∀ i, Parser.Extends (deeper i) (rule i)) (e : Expr n) :
    Parser.Extends (e.parser deeper) (e.parser rule) := by
  induction e using Expr.induction with
  | whole e ih =>
    cases e with
    | sequence es =>
      rw [parser, parser, parsers_eq_map, parsers_eq_map]
      exact ((Parser.Extends.inOrder ih).orFail _).map _
    | orElse a b => exact (ih a (by simp [parts])).orElse (ih b (by simp [parts]))
    | repeatAtLeast required a =>
      exact ((ih a (List.mem_singleton_self a)).repeatAtLeast required).map _
    | map f a => exact (ih a (List.mem_singleton_self a)).map f
    | deferred a => exact ih a (List.mem_singleton_self a)
    | reference i => exact h i
    | _ => exact fun _ _ ho => ho

namespace Grammar

theorem extends_rule_succ (g : Grammar n) (d : Nat) (i : Fin n) :
    Parser.Extends (g.rule (d + 1) i) (g.rule d i) := by
  induction d generalizing i with
  | zero =>
    intro input o h
    cases h
  | succ d ih => exact Expr.extends_parse ih (g i)

/-- What an expression answers at one depth of references it answers at every greater one. -/
theorem parser_rule_mono (g : Grammar n) (e : Expr n) {d d' : Nat} (h : d ≤ d') :
    Parser.Extends (e.parser (g.rule d')) (e.parser (g.rule d)) := by
  induction h with
  | refl => exact fun _ _ ho => ho
  | step _ ih => exact fun input o ho => Expr.extends_parse (g.extends_rule_succ _) e input o (ih input o ho)

end Grammar

end TextParsing
