import TextParsing.Proofs.Grammar.Evaluation
import TextParsing.Proofs.Parser.Lockstep

/-!
# Parsers in a context

A context is an expression with a hole, over rules that may have the hole in them, too
(`OpenGrammar`).  The hole is written as one more reference, and any number of times; `fill` puts a
parser in its place.

Two parsers that succeed in the same way may fail in different ways, with other messages and other
rests.  In a context this makes no difference to successes, and it makes none to failures unless the
context shows its hole (`OpenGrammar.ShowsHole`): a path leads from its root to the hole through
`map`, `deferred` and references alone.

    (∀ x v rest, p x = .success v rest ↔ q x = .success v rest) → ¬ g.ShowsHole e →
      ((g.fill p).parse (e.fill p) input = some (.failure err) ↔
        (g.fill q).parse (e.fill q) input = some (.failure err))                 (parse_fill_congr)
-/

namespace TextParsing

variable {n : Nat}

namespace Expr

/-- The place in a context where a parser is to stand. -/
abbrev hole : Expr (n + 1) := reference (Fin.last n)

mutual

/-- The context with a parser in its hole. -/
def fill (p : Input → Outcome Value) : Expr (n + 1) → Expr n
  | reference i => Fin.lastCases (function p) reference i
  | sequence es => sequence (fillAll p es)
  | orElse a b => orElse (fill p a) (fill p b)
  | repeatAtLeast required e => repeatAtLeast required (fill p e)
  | map f e => map f (fill p e)
  | deferred e => deferred (fill p e)
  | constant v => constant v
  | literal s => literal s
  | newline => newline
  | number => number
  | charRun required ok => charRun required ok
  | upTo marker => upTo marker
  | pattern q => pattern q
  | function f => function f

/-- Several contexts with one parser in all their holes. -/
def fillAll (p : Input → Outcome Value) : List (Expr (n + 1)) → List (Expr n)
  | [] => []
  | e :: es => fill p e :: fillAll p es

end

theorem fillAll_eq_map (p : Input → Outcome Value) (es : List (Expr (n + 1))) :
    fillAll p es = es.map (fill p) := by
  induction es with
  | nil => rfl
  | cons e es ih => rw [fillAll, ih, List.map_cons]

@[simp] theorem fill_last (p : Input → Outcome Value) :
    fill p (reference (Fin.last n)) = function p := by
  rw [fill, Fin.lastCases_last]

@[simp] theorem fill_castSucc (p : Input → Outcome Value) (i : Fin n) :
    fill p (reference i.castSucc) = reference i := by
  rw [fill, Fin.lastCases_castSucc]

end Expr

/-- The expressions of `n` rules with a hole. -/
abbrev OpenGrammar (n : Nat) := Fin n → Expr (n + 1)

namespace OpenGrammar

/-- The rules with a parser in the hole. -/
def fill (p : Input → Outcome Value) (g : OpenGrammar n) : Grammar n := fun i => (g i).fill p

/-- Whether the hole is reached from the root of a context through `map`, `deferred` and references
alone. -/
inductive ShowsHole (g : OpenGrammar n) : Expr (n + 1) → Prop where
  | hole : ShowsHole g .hole
  | map {e : Expr (n + 1)} (f : Value → Value) (h : ShowsHole g e) : ShowsHole g (.map f e)
  | deferred {e : Expr (n + 1)} (h : ShowsHole g e) : ShowsHole g (.deferred e)
  | reference {i : Fin n} (h : ShowsHole g (g i)) : ShowsHole g (.reference i.castSucc)

variable {g : OpenGrammar n} {p q : Input → Outcome Value}

/-- How a context behaves with one parser and with another in its hole: equal values and rests, and
equal errors unless the context shows its hole. -/
abbrev SameIn (g : OpenGrammar n) (e : Expr (n + 1)) (p q : Parser Value) : Prop :=
  Parser.Lockstep (· = ·) (fun err err' => err = err' ∨ g.ShowsHole e) p q

theorem sameIn_of_lockstep {e : Expr (n + 1)} {p q : Parser Value}
    (h : Parser.Lockstep (· = ·) (· = ·) p q) : g.SameIn e p q :=
  h.mono fun _ _ => .inl

/-- A part that fails in its own way makes the errors equal. -/
theorem sameIn_map {e : Expr (n + 1)} {p q : Parser (List Value)} (f : List Value → Value)
    (h : Parser.Lockstep (List.Forall₂ (· = ·)) (· = ·) p q) :
    g.SameIn e (p.map f) (q.map f) := by
  rw [List.forall₂_eq_eq_eq] at h
  exact sameIn_of_lockstep (h.map fun _ _ heq => congrArg f heq)

/-- In the hole itself the errors may differ. -/
theorem sameIn_hole (hpq : ∀ x v rest, p x = .success v rest ↔ q x = .success v rest) :
    g.SameIn .hole (Parser.ofFunction p) (Parser.ofFunction q) := by
  intro input
  show Option.Rel _ (some (p input)) (some (q input))
  cases hp : p input with
  | success v rest =>
    rw [(hpq input v rest).mp hp]
    exact .some (.success rfl rest)
  | failure err =>
    cases hq : q input with
    | success v rest =>
      rw [(hpq input v rest).mpr hq] at hp
      cases hp
    | failure err' => exact .some (.failure (.inr .hole))

/-- One context, two parsers in its hole, given that the rules behave in the same way.  What
differs between the errors of a part is lost where a sequence, a choice or a repetition fails. -/
theorem sameIn_fill (hpq : ∀ x v rest, p x = .success v rest ↔ q x = .success v rest)
    {rule rule' : Fin n → Parser Value} (hr : ∀ i, g.SameIn (g i) (rule i) (rule' i))
    (e : Expr (n + 1)) : g.SameIn e ((e.fill p).parser rule) ((e.fill q).parser rule') := by
  have same (p : Parser Value) : Parser.Lockstep (· = ·) (· = ·) p p :=
    .refl (fun _ => rfl) (fun _ => rfl) p
  induction e using Expr.induction with
  | whole e ih =>
    cases e with
    | sequence es =>
      rw [Expr.fill, Expr.fill, Expr.parser, Expr.parser, Expr.parsers_eq_map, Expr.parsers_eq_map,
        Expr.fillAll_eq_map, Expr.fillAll_eq_map, List.map_map, List.map_map]
      have hparts : ∀ a ∈ es, Parser.Lockstep (· = ·) (fun _ _ => True)
          ((Expr.parser rule ∘ Expr.fill p) a) ((Expr.parser rule' ∘ Expr.fill q) a) :=
        fun a ha => (ih a ha).mono fun _ _ _ => trivial
      exact sameIn_map _ (Parser.Lockstep.sequence hparts)
    | orElse a b =>
      exact sameIn_of_lockstep ((ih a (by simp [Expr.parts])).orElse (ih b (by simp [Expr.parts])))
    | repeatAtLeast required a =>
      exact sameIn_map _ ((ih a (List.mem_singleton_self a)).repeatAtLeast required)
    | map f a =>
      have ha := (ih a (List.mem_singleton_self a)).map fun _ _ h => congrArg f h
      exact ha.mono fun _ _ h => h.imp_right (.map f)
    | deferred a => exact (ih a (List.mem_singleton_self a)).mono fun _ _ h => h.imp_right .deferred
    | reference i =>
      cases i using Fin.lastCases with
      | last =>
        rw [Expr.fill_last, Expr.fill_last]
        exact sameIn_hole hpq
      | cast i =>
        rw [Expr.fill_castSucc, Expr.fill_castSucc]
        exact (hr i).mono fun _ _ h => h.imp_right .reference
    | _ => exact sameIn_of_lockstep (same _)

theorem sameIn_rule (hpq : ∀ x v rest, p x = .success v rest ↔ q x = .success v rest) (d : Nat)
    (i : Fin n) : g.SameIn (g i) ((g.fill p).rule d i) ((g.fill q).rule d i) := by
  induction d generalizing i with
  | zero => exact .silent
  | succ d ih => exact sameIn_fill hpq ih (g i)

/-- Parsers that succeed in the same way may take each other's place in a context: it succeeds in
the same way with both, or fails with both.  If every path from its root to the hole passes through
a sequence, a choice or a repetition, it fails with the same error. -/
theorem parse_fill_congr {e : Expr (n + 1)}
    (hpq : ∀ x v rest, p x = .success v rest ↔ q x = .success v rest) (input : Input) :
    (∀ v rest, (g.fill p).parse (e.fill p) input = some (.success v rest) ↔
      (g.fill q).parse (e.fill q) input = some (.success v rest)) ∧
    ((∃ err, (g.fill p).parse (e.fill p) input = some (.failure err)) ↔
      ∃ err, (g.fill q).parse (e.fill q) input = some (.failure err)) ∧
    (¬ g.ShowsHole e → ∀ err, (g.fill p).parse (e.fill p) input = some (.failure err) ↔
      (g.fill q).parse (e.fill q) input = some (.failure err)) := by
  have h : g.SameIn e ((g.fill p).parse (e.fill p)) ((g.fill q).parse (e.fill q)) :=
    fun input => sameIn_fill hpq (sameIn_rule hpq _) e input
  refine ⟨?_, h.exists_failure_iff, ?_⟩
  · intro v rest
    exact h.success_iff
  · intro hshows err
    have hsame := h.mono fun _ _ hor => hor.resolve_right hshows
    exact hsame.failure_iff

/-- Takes an `a`, and fails as `refusal` does if there is none. -/
def takeA (refusal : Input → Outcome Value) (input : Input) : Outcome Value :=
  if input.text.head? = some 'a' then .success (.text ['a']) (input.drop 1) else refusal input

/-- A rule that does nothing but run the hole. -/
def passOn : OpenGrammar 1 := fun _ => .map id (.deferred .hole)

/-- One of two parsers for the same letter leaves a shorter rest when it fails.  This can be seen
of the rule that passes it on, but not of a choice with that rule in it. -/
theorem parse_fill_congr_choice :
    let p := takeA (Parser.refuse "no letter".toList 0)
    let q := takeA (Parser.refuse "an accident".toList 1)
    let rule : Expr 2 := .reference 0
    let choice : Expr 2 := .orElse (.literal ['b']) rule
    let input : Input := .ofText "xa".toList
    (∃ err err', (passOn.fill p).parse (rule.fill p) input = some (.failure err) ∧
      (passOn.fill q).parse (rule.fill q) input = some (.failure err') ∧ err.rest ≠ err'.rest) ∧
    ∃ err, (passOn.fill p).parse (choice.fill p) input = some (.failure err) ∧
      (passOn.fill q).parse (choice.fill q) input = some (.failure err) := by
  intro p q rule choice input
  refine ⟨⟨_, _, rfl, rfl, by decide⟩, ?_⟩
  have hpq (x : Input) (v : Value) (rest : Input) :
      p x = .success v rest ↔ q x = .success v rest := by
    show takeA _ x = _ ↔ takeA _ x = _
    unfold takeA
    split <;> simp [Parser.refuse]
  have hshows : ¬ passOn.ShowsHole choice := by
    intro h
    unfold choice at h
    cases h
  have hfail : (passOn.fill p).parse (choice.fill p) input =
      some (.failure ⟨.noAlternative, "xa".toList⟩) := rfl
  exact ⟨_, hfail, ((parse_fill_congr hpq input).2.2 hshows _).mp hfail⟩

end OpenGrammar

end TextParsing
