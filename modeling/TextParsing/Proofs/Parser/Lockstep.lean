import Mathlib.Data.List.Forall2
import TextParsing.Proofs.Parser.Combinators

/-!
# Two parsers in lockstep

`Lockstep V E p q` says that two parsers take the same course on every input: both succeed and leave
the same rest, with values that `V` relates, or both fail, with errors that `E` relates, or neither
answers.  Whatever the errors of the parts are like, the errors of a sequence, of a choice and of a
repetition are the same on both sides:

    Lockstep V E p p' → Lockstep V E' q q' →
      Lockstep V (· = ·) (orElse p q) (orElse p' q')                              (Lockstep.orElse)
    Lockstep V E p q →
      Lockstep (Forall₂ V) (· = ·) (repeatAtLeast k p) (repeatAtLeast k q) (Lockstep.repeatAtLeast)

For a repetition this rests on its rounds: both sides make equally many, since a round ends where
one of them ends, and the number of rounds is all that the message of the failure tells.
-/

namespace TextParsing

variable {α β γ α' β' : Type} {V : α → β → Prop} {E E' : ParseError → ParseError → Prop}

/-- Two outcomes of the same course: the same rest after a success, and values or errors that are
related. -/
inductive Outcome.Rel (V : α → β → Prop) (E : ParseError → ParseError → Prop) :
    Outcome α → Outcome β → Prop where
  | success {v : α} {w : β} (h : V v w) (rest : Input) :
      Outcome.Rel V E (.success v rest) (.success w rest)
  | failure {e e' : ParseError} (h : E e e') : Outcome.Rel V E (.failure e) (.failure e')

namespace Parser

/-- What is related stays so if related things are changed into related things. -/
theorem rel_map {r : α → β → Prop} {s : α' → β' → Prop} {f : α → α'} {g : β → β'} {a : Option α}
    {b : Option β} (h : Option.Rel r a b) (hfg : ∀ x y, r x y → s (f x) (g y)) :
    Option.Rel s (a.map f) (b.map g) := by
  cases h with
  | none => exact .none
  | some h => exact .some (hfg _ _ h)

/-- Whether two parsers take the same course on every input, with values that `V` relates and errors
that `E` relates. -/
def Lockstep (V : α → β → Prop) (E : ParseError → ParseError → Prop) (p : Parser α)
    (q : Parser β) : Prop :=
  ∀ input, Option.Rel (Outcome.Rel V E) (p input) (q input)

namespace Lockstep

variable {p : Parser α} {q : Parser β}

theorem refl {V : α → α → Prop} (hV : ∀ v, V v v) (hE : ∀ e, E e e) (p : Parser α) :
    Lockstep V E p p := by
  intro input
  cases p input with
  | none => exact .none
  | some o =>
    cases o with
    | success v rest => exact .some (.success (hV v) rest)
    | failure e => exact .some (.failure (hE e))

theorem silent : Lockstep V E Parser.silent Parser.silent := fun _ => .none

/-- Errors may be told apart less. -/
theorem mono (h : Lockstep V E p q) (hE : ∀ e e', E e e' → E' e e') : Lockstep V E' p q := by
  intro input
  generalize p input = o, q input = o', h input = ho
  cases ho with
  | none => exact .none
  | some ho =>
    cases ho with
    | success hv rest => exact .some (.success hv rest)
    | failure he => exact .some (.failure (hE _ _ he))

/-! ### The parsers that pass a failure on -/

theorem map {W : α' → β' → Prop} {f : α → α'} {g : β → β'} (h : Lockstep V E p q)
    (hfg : ∀ v w, V v w → W (f v) (g w)) : Lockstep W E (p.map f) (q.map g) := by
  intro input
  refine rel_map (h input) ?_
  intro o o' ho
  cases ho with
  | success hv rest => exact .success (hfg _ _ hv) rest
  | failure he => exact .failure he

theorem inOrder {p : γ → Parser α} {q : γ → Parser β} {es : List γ}
    (h : ∀ e ∈ es, Lockstep V E (p e) (q e)) :
    Lockstep (List.Forall₂ V) E (inOrder (es.map p)) (inOrder (es.map q)) := by
  induction es with
  | nil => exact fun input => .some (.success .nil input)
  | cons e es ih =>
    intro input
    have ih := ih fun a ha => h a (List.mem_cons_of_mem _ ha)
    show Option.Rel _ ((p e input).bind _) ((q e input).bind _)
    generalize p e input = o, q e input = o', h e List.mem_cons_self input = ho
    cases ho with
    | none => exact .none
    | some ho =>
      cases ho with
      | failure he => exact .some (.failure he)
      | success hv rest =>
        refine rel_map (ih rest) ?_
        intro o o' ho
        cases ho with
        | success hvs last => exact .success (.cons hv hvs) last
        | failure he => exact .failure he

/-! ### The parsers that fail in their own way -/

theorem orFail (h : Lockstep V E p q) (cause : Cause) :
    Lockstep V (· = ·) (p.orFail cause) (q.orFail cause) := by
  intro input
  refine rel_map (h input) ?_
  intro o o' ho
  cases ho with
  | success hv rest => exact .success hv rest
  | failure he => exact .failure rfl

theorem sequence {p : γ → Parser α} {q : γ → Parser β} {es : List γ}
    (h : ∀ e ∈ es, Lockstep V E (p e) (q e)) :
    Lockstep (List.Forall₂ V) (· = ·) (sequence (es.map p)) (sequence (es.map q)) :=
  (inOrder h).orFail .sequenceBroken

theorem orElse {p' : Parser α} {q' : Parser β} (h : Lockstep V E p q)
    (h' : Lockstep V E' p' q') : Lockstep V (· = ·) (orElse p p') (orElse q q') := by
  intro input
  show Option.Rel _ ((p input).bind _) ((q input).bind _)
  generalize p input = o, q input = o', h input = ho
  cases ho with
  | none => exact .none
  | some ho =>
    cases ho with
    | success hv rest => exact .some (.success hv rest)
    | failure he => exact h'.orFail .noAlternative input

/-- Both sides make equally many rounds and leave the same. -/
theorem rounds (h : Lockstep V E p q) (cursor : Input) :
    Option.Rel (fun r s => List.Forall₂ V r.1 s.1 ∧ r.2 = s.2) (rounds p cursor)
      (rounds q cursor) := by
  generalize hn : cursor.length = n
  induction n using Nat.strongRecOn generalizing cursor with
  | ind n ih =>
    by_cases h0 : cursor.length = 0
    · rw [rounds_of_length_eq_zero h0, rounds_of_length_eq_zero h0]
      exact .some ⟨.nil, rfl⟩
    · generalize hp : p cursor = o, hq : q cursor = o', h cursor = ho
      cases ho with
      | none =>
        rw [rounds_of_none h0 hp, rounds_of_none h0 hq]
        exact .none
      | some ho =>
        cases ho with
        | failure he =>
          rw [rounds_of_failure hp, rounds_of_failure hq]
          exact .some ⟨.nil, rfl⟩
        | success hv rest =>
          by_cases hlt : rest.length < cursor.length
          · rw [rounds_of_success hp hlt, rounds_of_success hq hlt]
            refine rel_map (ih rest.length (hn ▸ hlt) rest rfl) ?_
            rintro ⟨vs, last⟩ ⟨ws, last'⟩ ⟨hvs, hlast⟩
            exact ⟨.cons hv hvs, hlast⟩
          · rw [rounds_of_idle hp (Nat.not_lt.mp hlt), rounds_of_idle hq (Nat.not_lt.mp hlt)]
            exact .some ⟨.nil, rfl⟩

theorem repeatAtLeast (h : Lockstep V E p q) (required : Nat) :
    Lockstep (List.Forall₂ V) (· = ·) (repeatAtLeast required p) (repeatAtLeast required q) := by
  intro input
  refine rel_map (h.rounds input) ?_
  rintro ⟨vs, last⟩ ⟨ws, last'⟩ ⟨hvs, rfl⟩
  dsimp only
  rw [hvs.length_eq]
  split
  · exact .failure rfl
  · exact .success hvs last

/-! ### What can be told of the outcomes -/

theorem exists_success_iff (h : Lockstep V E p q) {input rest : Input} :
    (∃ v, p input = some (.success v rest)) ↔ ∃ w, q input = some (.success w rest) := by
  generalize p input = o, q input = o', h input = ho
  cases ho with
  | none => simp
  | some ho => cases ho <;> simp

theorem success_iff {q : Parser α} (h : Lockstep (· = ·) E p q) {input rest : Input} {v : α} :
    p input = some (.success v rest) ↔ q input = some (.success v rest) := by
  generalize p input = o, q input = o', h input = ho
  cases ho with
  | none => simp
  | some ho =>
    cases ho with
    | success hv rest =>
      cases hv
      rfl
    | failure => simp

theorem exists_failure_iff (h : Lockstep V E p q) {input : Input} :
    (∃ e, p input = some (.failure e)) ↔ ∃ e, q input = some (.failure e) := by
  generalize p input = o, q input = o', h input = ho
  cases ho with
  | none => simp
  | some ho => cases ho <;> simp

theorem failure_iff (h : Lockstep V (· = ·) p q) {input : Input} {e : ParseError} :
    p input = some (.failure e) ↔ q input = some (.failure e) := by
  generalize p input = o, q input = o', h input = ho
  cases ho with
  | none => simp
  | some ho =>
    cases ho with
    | success => simp
    | failure he => simp [he]

end Lockstep

end Parser

end TextParsing
