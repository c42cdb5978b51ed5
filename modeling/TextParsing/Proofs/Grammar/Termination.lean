import Mathlib.Data.Fintype.Card
import Mathlib.Logic.Relation
import TextParsing.Proofs.Grammar.Nullable
import TextParsing.Proofs.Parser.Answering

/-!
# Recursive grammars that always answer

An expression refers to a rule on its left (`Grammar.LeftRefers`) if the rule may be asked before
anything has been consumed.  If no rule comes back to itself through such references
(`Grammar.LeftReaches`), every expression answers every input, however repetitions are nested:

    (∀ f, g.HasFunction e f → ∀ x, (f x).rest.text <:+ x.text) →
      (∀ i, ¬ Relation.TransGen g.LeftReaches i i) → ∃ o, g.parse e input = some o
                                                                            (parse_terminates)

A chain of references that consumes nothing follows `LeftReaches`, along which the number of rules
that can still be reached (`Grammar.rank`) goes down.  Where something is consumed, the rank may
rise again, but it stays below the number of rules, so `n * length + rank` decreases.
-/

namespace TextParsing

variable {n : Nat}

namespace Grammar

/-! ## References on the left -/

/-- Whether an expression refers to a rule at a place that is reached before anything has been
consumed. -/
inductive LeftRefers (g : Grammar n) : Expr n → Fin n → Prop where
  | reference (i : Fin n) : LeftRefers g (.reference i) i
  | sequence {pre post : List (Expr n)} {e : Expr n} {i : Fin n} (hpre : ∀ a ∈ pre, g.Nullable a)
      (h : LeftRefers g e i) : LeftRefers g (.sequence (pre ++ e :: post)) i
  | first {a b : Expr n} {i : Fin n} (h : LeftRefers g a i) : LeftRefers g (.orElse a b) i
  | second {a b : Expr n} {i : Fin n} (h : LeftRefers g b i) : LeftRefers g (.orElse a b) i
  | repeatAtLeast {e : Expr n} {i : Fin n} (required : Nat) (h : LeftRefers g e i) :
      LeftRefers g (.repeatAtLeast required e) i
  | map {e : Expr n} {i : Fin n} (f : Value → Value) (h : LeftRefers g e i) :
      LeftRefers g (.map f e) i
  | deferred {e : Expr n} {i : Fin n} (h : LeftRefers g e i) : LeftRefers g (.deferred e) i

/-- Whether the first rule refers to the second on its left. -/
def LeftReaches (g : Grammar n) (i j : Fin n) : Prop := g.LeftRefers (g i) j

open Classical in
/-- The rules that can be reached from a rule before anything is consumed. -/
noncomputable def reachable (g : Grammar n) (i : Fin n) : Finset (Fin n) :=
  Finset.univ.filter (Relation.TransGen g.LeftReaches i)

/-- The number of rules that can be reached from a rule before anything is consumed. -/
noncomputable def rank (g : Grammar n) (i : Fin n) : Nat := (g.reachable i).card

variable {g : Grammar n} {rule : Fin n → Parser Value}

theorem mem_reachable {i j : Fin n} :
    j ∈ g.reachable i ↔ Relation.TransGen g.LeftReaches i j := by
  simp [reachable]

theorem rank_lt_rank (hg : ∀ i, ¬ Relation.TransGen g.LeftReaches i i) {i j : Fin n}
    (h : g.LeftReaches i j) : g.rank j < g.rank i := by
  have hsub : g.reachable j ⊆ g.reachable i := by
    intro k hk
    rw [mem_reachable] at hk ⊢
    exact .head h hk
  refine Finset.card_lt_card ((Finset.ssubset_iff_of_subset hsub).mpr ⟨j, ?_, ?_⟩)
  · exact mem_reachable.mpr (.single h)
  · intro hj
    exact hg j (mem_reachable.mp hj)

theorem rank_lt (hg : ∀ i, ¬ Relation.TransGen g.LeftReaches i i) (i : Fin n) : g.rank i < n := by
  have hi : i ∉ g.reachable i := by
    intro h
    exact hg i (mem_reachable.mp h)
  have hcard := Finset.card_lt_univ_of_notMem hi
  rwa [Fintype.card_fin] at hcard

/-! ## Answers of sequences -/

/-- The expressions `post` of a sequence answer one after the other.  As long as nothing has been
consumed, the expressions `pre` before them are nullable. -/
theorem answers_inOrder {es : List (Expr n)} {length : Nat}
    (hs : ∀ e ∈ es, Parser.LeavesSuffix (e.parser rule))
    (hnull : ∀ e ∈ es, ∀ x v rest, e.parser rule x = some (.success v rest) →
      x.length ≤ rest.length → g.Nullable e)
    (hpart : ∀ pre e post, es = pre ++ e :: post → ∀ x, x.length ≤ length →
      (x.length = length → ∀ a ∈ pre, g.Nullable a) → (e.parser rule).Answers x)
    (pre : List (Expr n)) {post : List (Expr n)} {cursor : Input} (hes : es = pre ++ post)
    (hle : cursor.length ≤ length) (hpre : cursor.length = length → ∀ a ∈ pre, g.Nullable a) :
    Parser.Answers (Parser.inOrder (post.map (Expr.parser rule))) cursor := by
  induction post generalizing pre cursor with
  | nil => exact ⟨_, rfl⟩
  | cons e post ih =>
    have he : e ∈ es := hes ▸ List.mem_append_right _ List.mem_cons_self
    obtain ⟨o, ho⟩ := hpart pre e post hes cursor hle hpre
    cases o with
    | failure err => exact ⟨_, Parser.inOrder_cons_of_failure ho⟩
    | success v rest =>
      have hrest := (hs e he).length_le ho
      have hpre' : rest.length = length → ∀ a ∈ pre ++ [e], g.Nullable a := by
        intro heq a ha
        rcases List.mem_append.mp ha with ha | ha
        · exact hpre (by omega) a ha
        · obtain rfl := List.mem_singleton.mp ha
          exact hnull a he cursor v rest ho (by omega)
      obtain ⟨o', ho'⟩ := ih (pre ++ [e]) (by rw [hes, List.append_assoc]; rfl) (by omega) hpre'
      refine ⟨o'.map (v :: ·), ?_⟩
      rw [List.map_cons, Parser.inOrder_cons_of_success ho, ho']
      rfl

/-! ## Answers of expressions -/

/-- An expression answers an input if all rules answer what is shorter, and those to which it refers
on its left answer what is as long. -/
theorem Measured.answers (hm : g.Measured rule) {e : Expr n} (he : g.Restrained e) {input : Input}
    (hshort : ∀ i, g.Restrained (g i) → ∀ x, x.length < input.length → (rule i).Answers x)
    (hleft : ∀ i, g.LeftRefers e i → g.Restrained (g i) → ∀ x, x.length = input.length →
      (rule i).Answers x) : (e.parser rule).Answers input := by
  induction e using Expr.induction generalizing input with
  | whole e ih =>
    have hpart : ∀ a ∈ e.parts, ∀ x, x.length ≤ input.length →
        (x.length = input.length → ∀ i, g.LeftRefers a i → g.LeftRefers e i) →
          (a.parser rule).Answers x := by
      intro a ha x hx hrefers
      refine ih a ha (he.part ha) ?_ ?_
      · intro i hi y hy
        exact hshort i hi y (by omega)
      · intro i hai hi y hy
        by_cases heq : x.length = input.length
        · exact hleft i (hrefers heq i hai) hi y (by omega)
        · exact hshort i hi y (by omega)
    cases e with
    | sequence es =>
      refine .map (.orFail ?_ _) _
      rw [Expr.parsers_eq_map]
      refine answers_inOrder (g := g) ?_ ?_ ?_ [] rfl (Nat.le_refl input.length) ?_
      · intro a ha
        exact (he.part ha).leavesSuffix hm.suffix
      · intro a ha x v rest
        exact hm.nullable_of_parse (he.part ha)
      · rintro pre a post rfl x hx hpre
        refine hpart a (List.mem_append_right _ List.mem_cons_self) x hx ?_
        intro heq i hi
        exact .sequence (hpre heq) hi
      · intro _ a ha
        cases ha
    | orElse a b =>
      refine .orElse ?_ ?_
      · exact hpart a (by simp [Expr.parts]) input (Nat.le_refl _) fun _ _ => .first
      · exact hpart b (by simp [Expr.parts]) input (Nat.le_refl _) fun _ _ => .second
    | repeatAtLeast required a =>
      refine .map (Parser.answers_repeatAtLeast ?_) _
      intro x hx
      exact hpart a (List.mem_singleton_self a) x hx fun _ _ => .repeatAtLeast required
    | map k a =>
      refine .map ?_ _
      exact hpart a (List.mem_singleton_self a) input (Nat.le_refl _) fun _ _ => .map k
    | deferred a =>
      exact hpart a (List.mem_singleton_self a) input (Nat.le_refl _) fun _ _ => .deferred
    | reference i => exact hleft i (.reference i) he.rule input rfl
    | _ => exact ⟨_, rfl⟩

/-- A rule answers an input if it is unfolded deeply enough. -/
theorem answers_rule (hg : ∀ i, ¬ Relation.TransGen g.LeftReaches i i) {d : Nat} {i : Fin n}
    (hi : g.Restrained (g i)) {input : Input} (hd : n * input.length + g.rank i < d) :
    (g.rule d i).Answers input := by
  induction d generalizing i input with
  | zero => omega
  | succ d ih =>
    rw [rule_succ]
    refine (g.measured_rule d).answers hi ?_ ?_
    · intro j hj x hx
      refine ih hj ?_
      have hrank := rank_lt hg j
      have hmul : n * (x.length + 1) ≤ n * input.length := Nat.mul_le_mul_left n hx
      rw [Nat.mul_succ] at hmul
      omega
    · intro j hij hj x hx
      refine ih hj ?_
      have hrank := rank_lt_rank hg hij
      rw [hx]
      omega

/-- Where no rule reaches itself on its left and all functions leave suffixes, every expression
answers every input, and the depth to which rules are unfolded does not matter from some depth on.
A repetition that asks for a round consumes something wherever it succeeds. -/
theorem parse_terminates {e : Expr n} (hf : ∀ f, g.HasFunction e f → ∀ x, (f x).rest.text <:+ x.text)
    (hg : ∀ i, ¬ Relation.TransGen g.LeftReaches i i) (input : Input) :
    (∃ o, g.parse e input = some o ∧
      ∀ d, g.depthFor input ≤ d → e.parser (g.rule d) input = some o) ∧
    ∀ (rule : Fin n → Parser Value) required a x v rest,
      (Expr.repeatAtLeast (required + 1) a).parser rule x = some (.success v rest) →
        rest.length < x.length := by
  have he : g.Restrained e := by
    intro f hfun x o ho
    obtain rfl := Option.some.inj ho
    exact hf f hfun x
  have hdeep : ∀ i, g.Restrained (g i) → ∀ x, x.length ≤ input.length →
      (g.rule (g.depthFor input) i).Answers x := by
    intro i hi x hx
    refine answers_rule hg hi ?_
    have hrank := rank_lt hg i
    have hmul : n * x.length ≤ n * input.length := Nat.mul_le_mul_left n hx
    rw [depthFor, Nat.mul_succ]
    omega
  refine ⟨?_, ?_⟩
  · obtain ⟨o, ho⟩ := (g.measured_rule (g.depthFor input)).answers he
      (fun i hi x hx => hdeep i hi x (Nat.le_of_lt hx))
      fun i _ hi x hx => hdeep i hi x (Nat.le_of_eq hx)
    exact ⟨o, ho, fun d hd => g.parser_rule_mono e hd input o ho⟩
  · intro rule required a x v rest h
    obtain ⟨vs, hvs, -⟩ := Parser.map_eq_success_iff.mp h
    exact Parser.length_lt_of_repeatAtLeast hvs

theorem LeftRefers.of_sequence_cons {e : Expr n} {es : List (Expr n)} {i : Fin n}
    (h : g.LeftRefers (.sequence (e :: es)) i) :
    g.LeftRefers e i ∨ g.Nullable e ∧ g.LeftRefers (.sequence es) i := by
  generalize he : Expr.sequence (e :: es) = s at h
  cases h with
  | @sequence pre post a _ hpre h =>
    have heq : e :: es = pre ++ a :: post := Expr.sequence.inj he
    cases pre with
    | nil =>
      obtain ⟨rfl, -⟩ := List.cons.inj heq
      exact .inl h
    | cons b pre =>
      obtain ⟨rfl, rfl⟩ := List.cons.inj heq
      exact .inr ⟨hpre _ List.mem_cons_self,
        .sequence (fun c hc => hpre c (List.mem_cons_of_mem _ hc)) h⟩
  | _ => cases he

/-- Sums of numbers and of sums in parentheses. -/
def sums : Grammar 2
  | 0 => .sequence [.reference 1, .many (.sequence [.literal ['+'], .reference 1])]
  | 1 => .orElse (.sequence [.literal ['('], .deferred (.reference 0), .literal [')']])
      (.charRun 1 Char.isDigit)

theorem not_nullable_sums_one : ¬ sums.Nullable (sums 1) := by
  intro h
  cases h with
  | first h =>
    cases h with
    | sequence h => cases h _ List.mem_cons_self
  | second h => cases h

/-- A sum begins with a summand, and a summand with a character. -/
theorem leftReaches_sums {i j : Fin 2} (h : sums.LeftReaches i j) : i = 0 ∧ j = 1 := by
  match i, h with
  | 0, h =>
    rcases LeftRefers.of_sequence_cons h with h | ⟨h, -⟩
    · cases h
      exact ⟨rfl, rfl⟩
    · cases h with
      | reference h => exact absurd h not_nullable_sums_one
  | 1, h =>
    cases h with
    | first h =>
      rcases h.of_sequence_cons with h | ⟨h, -⟩
      · cases h
      · cases h
    | second h => cases h

/-- A sum with more parentheses closed than opened is answered, like any other text. -/
theorem parse_terminates_sums :
    ∃ o, sums.parse (.sequence [.reference 0, .many .anyChar]) (.ofText "((1)+23))".toList) =
      some o := by
  have hfunction : ∀ f, sums.HasFunction (.sequence [.reference 0, .many .anyChar]) f →
      ∀ x, (f x).rest.text <:+ x.text := by
    intro f hf x
    rcases hf.mem_functions with hf | ⟨i, hf⟩
    · obtain rfl := List.mem_singleton.mp hf
      exact (Parser.leavesSuffix_nextChar.map Value.text) x _ rfl
    · match i, hf with
      | 0, hf => cases hf
      | 1, hf => cases hf
  have hacyclic : ∀ i, ¬ Relation.TransGen sums.LeftReaches i i := by
    intro i h
    obtain ⟨j, hij, -⟩ := Relation.TransGen.head'_iff.mp h
    obtain ⟨k, -, hki⟩ := Relation.TransGen.tail'_iff.mp h
    obtain ⟨rfl, -⟩ := leftReaches_sums hij
    cases (leftReaches_sums hki).2
  obtain ⟨o, ho, -⟩ := (parse_terminates hfunction hacyclic (.ofText "((1)+23))".toList)).1
  exact ⟨o, ho⟩

end Grammar

end TextParsing
