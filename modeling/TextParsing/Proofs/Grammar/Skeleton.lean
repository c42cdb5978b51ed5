import TextParsing.Proofs.Grammar.Evaluation
import TextParsing.Proofs.Parser.Lockstep
import TextParsing.Report
import TextParsing.Value.Mapping

/-!
# Values do not steer a parse

The skeleton of an expression is the expression without what it computes: the functions of `map` and
the values of `constant` are replaced by fixed ones.  An expression takes the same course as its
skeleton on every input, so two expressions with one skeleton, over rules with one skeleton each,
agree in everything but the values of their successes:

    (∀ i, (g i).skeleton = (g' i).skeleton) → e.skeleton = e'.skeleton →
      (g.parse e input = some (.failure err) ↔ g'.parse e' input = some (.failure err))
                                                                              (parse_of_skeleton_eq)
-/

namespace TextParsing

variable {n : Nat}

namespace Expr

mutual

/-- The expression without the functions that it maps and the values of its constants. -/
def skeleton : Expr n → Expr n
  | constant _ => constant .null
  | sequence es => sequence (skeletons es)
  | orElse a b => orElse (skeleton a) (skeleton b)
  | repeatAtLeast required e => repeatAtLeast required (skeleton e)
  | map _ e => map id (skeleton e)
  | deferred e => deferred (skeleton e)
  | literal s => literal s
  | newline => newline
  | number => number
  | charRun required ok => charRun required ok
  | upTo marker => upTo marker
  | pattern p => pattern p
  | function f => function f
  | reference i => reference i

/-- The skeletons of several expressions. -/
def skeletons : List (Expr n) → List (Expr n)
  | [] => []
  | e :: es => skeleton e :: skeletons es

end

theorem skeletons_eq_map (es : List (Expr n)) : skeletons es = es.map skeleton := by
  induction es with
  | nil => rfl
  | cons e es ih => rw [skeletons, ih, List.map_cons]

end Expr

/-- The same course, whatever the values are: the same rests and the same errors. -/
abbrev Parser.SameCourse (p q : Parser Value) : Prop := Lockstep (fun _ _ => True) (· = ·) p q

/-- An expression takes the course of its skeleton, if the rules do. -/
theorem Expr.sameCourse_skeleton {rule rule' : Fin n → Parser Value}
    (hr : ∀ i, Parser.SameCourse (rule i) (rule' i)) (e : Expr n) :
    Parser.SameCourse (e.parser rule) (e.skeleton.parser rule') := by
  have same (p : Parser Value) : Parser.SameCourse p p := .refl (fun _ => trivial) (fun _ => rfl) p
  induction e using Expr.induction with
  | whole e ih =>
    cases e with
    | constant v => exact fun input => .some (.success trivial input)
    | sequence es =>
      rw [skeleton, parser, parser, parsers_eq_map, parsers_eq_map, skeletons_eq_map, List.map_map]
      exact (Parser.Lockstep.sequence ih).map fun _ _ _ => trivial
    | orElse a b => exact (ih a (by simp [parts])).orElse (ih b (by simp [parts]))
    | repeatAtLeast required a =>
      exact ((ih a (List.mem_singleton_self a)).repeatAtLeast required).map fun _ _ _ => trivial
    | map f a => exact (ih a (List.mem_singleton_self a)).map fun _ _ _ => trivial
    | deferred a => exact ih a (List.mem_singleton_self a)
    | reference i => exact hr i
    | _ => exact same _

namespace Grammar

/-- The rules without what they compute. -/
def skeleton (g : Grammar n) : Grammar n := fun i => (g i).skeleton

theorem sameCourse_rule (g : Grammar n) (d : Nat) (i : Fin n) :
    Parser.SameCourse (g.rule d i) (g.skeleton.rule d i) := by
  induction d generalizing i with
  | zero => exact .silent
  | succ d ih => exact Expr.sameCourse_skeleton ih (g i)

theorem sameCourse_parse (g : Grammar n) (e : Expr n) :
    Parser.SameCourse (g.parse e) (g.skeleton.parse e.skeleton) :=
  fun input => Expr.sameCourse_skeleton (g.sameCourse_rule _) e input

/-- Expressions and rules that differ in nothing but mapped functions and constants succeed on the
same inputs and leave the same rests, and they fail on the same inputs with the same errors: the
same message and rest, hence the same place and the same report. -/
theorem parse_of_skeleton_eq {g g' : Grammar n} {e e' : Expr n}
    (hg : ∀ i, (g i).skeleton = (g' i).skeleton) (he : e.skeleton = e'.skeleton) (input : Input) :
    (∀ rest, (∃ v, g.parse e input = some (.success v rest)) ↔
      ∃ v, g'.parse e' input = some (.success v rest)) ∧
    (∀ err, g.parse e input = some (.failure err) ↔ g'.parse e' input = some (.failure err)) ∧
    (∀ err err', g.parse e input = some (.failure err) → g'.parse e' input = some (.failure err') →
      err.message = err'.message ∧ err.rest = err'.rest ∧ ∀ source,
        err.offsetIn source = err'.offsetIn source ∧
        (err.report source).render = (err'.report source).render) := by
  have hskeleton : g.skeleton = g'.skeleton := funext hg
  have h := g.sameCourse_parse e
  have h' := g'.sameCourse_parse e'
  rw [← hskeleton, ← he] at h'
  have hfail : ∀ err, g.parse e input = some (.failure err) ↔
      g'.parse e' input = some (.failure err) :=
    fun err => h.failure_iff.trans h'.failure_iff.symm
  refine ⟨?_, hfail, ?_⟩
  · intro rest
    exact h.exists_success_iff.trans h'.exists_success_iff.symm
  · intro err err' herr herr'
    rw [hfail, herr'] at herr
    cases herr
    exact ⟨rfl, rfl, fun source => ⟨rfl, rfl⟩⟩

/-- Nested brackets: `bottom` is the value of no bracket at all, `deeper` maps the value of what
stands inside a pair. -/
def brackets (deeper : Value → Value) (bottom : Value) : Grammar 1 := fun i =>
  .orElse (.map deeper (.map (Value.pick 1)
    (.sequence [.literal ['['], .deferred (.reference i), .literal [']']]))) (.constant bottom)

/-- Two groups of brackets are asked for and one is there: whether the depth is computed or nothing
at all, the failure is the same. -/
theorem parse_of_skeleton_eq_brackets :
    ∃ err, (brackets Value.next (.word 0)).parse (.several (.reference 0))
        (.ofText "[[]]!".toList) = some (.failure err) ∧
      (brackets (fun _ => .null) (.text [])).parse (.several (.reference 0))
        (.ofText "[[]]!".toList) = some (.failure err) ∧
      err.message = "expected at least 2 repetitions, found 1".toList := by
  have hfail : (brackets Value.next (.word 0)).parse (.several (.reference 0))
      (.ofText "[[]]!".toList) =
      some (.failure ⟨.repetitionTooShort 2 1, "[[]]!".toList⟩) := by cbv
  have hrules (i : Fin 1) : (brackets Value.next (.word 0) i).skeleton =
      (brackets (fun _ => .null) (.text []) i).skeleton := rfl
  have hsame := parse_of_skeleton_eq hrules (.refl (Expr.several (.reference 0)).skeleton)
    (.ofText "[[]]!".toList)
  exact ⟨_, hfail, (hsame.2.1 _).mp hfail, by decide⟩

end Grammar

end TextParsing
