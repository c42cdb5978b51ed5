import Mathlib.Logic.Relation
import TextParsing.Proofs.Regex.Labels

/-!
# What an expression matches

`r.Matches w i j` says that the part of the text `w` between the places `i` and `j` is a match of
`r`.  It follows the form of `r` and knows nothing of preferences, plans or threads.  The plan of an
expression matches the same parts, and so do the runs of a search that work off its steps one by
one:

    (plan r).Matches w i j ↔ r.Matches w i j                                       (matches_plan)
    Runs w [.enter p n] i j ↔ p.Matches w i j                                    (runs_enter_iff)
-/

namespace TextParsing.Regex

/-- The character before a place of a text. -/
def charBefore (w : Text) : Nat → Option Char
  | 0 => none
  | i + 1 => w[i]?

/-- A relation between places, followed `n` times. -/
def Rounds (R : Nat → Nat → Prop) : Nat → Nat → Nat → Prop
  | 0, i, j => i = j
  | n + 1, i, j => ∃ k, R i k ∧ Rounds R n k j

/-- Whether the part of a text between two places is a match of an expression. -/
def Matches (w : Text) : Regex → Nat → Nat → Prop
  | empty, i, j => i = j
  | chars set _, i, j => w[i]?.any set.contains = true ∧ j = i + 1
  | look test, i, j => test.holds (charBefore w i) w[i]? = true ∧ i = j
  | group _ a, i, j => Matches w a i j
  | cat a b, i, j => ∃ k, Matches w a i k ∧ Matches w b k j
  | alt a b, i, j => Matches w a i j ∨ Matches w b i j
  | times _ least most a, i, j =>
    ∃ n, least ≤ n ∧ (∀ m ∈ most, n ≤ max least m) ∧ Rounds (Matches w a) n i j

/-- Whether the part of a text between two places is a match of a plan. -/
def Plan.Matches (w : Text) : Plan → Nat → Nat → Prop
  | empty, i, j => i = j
  | chars set, i, j => w[i]?.any set.contains = true ∧ j = i + 1
  | look test, i, j => test.holds (charBefore w i) w[i]? = true ∧ i = j
  | cat a b, i, j => ∃ k, Matches w a i k ∧ Matches w b k j
  | alt a b, i, j => Matches w a i j ∨ Matches w b i j
  | optional _ a, i, j => i = j ∨ Matches w a i j
  | repeated _ a, i, j => Relation.TransGen (Matches w a) i j
  | star _ a, i, j => Relation.ReflTransGen (Matches w a) i j

/-! ## Rounds -/

section Rounds

variable {R : Nat → Nat → Prop}

theorem rounds_one {i j : Nat} : Rounds R 1 i j ↔ R i j := by
  constructor
  · rintro ⟨k, hik, rfl⟩
    exact hik
  · intro h
    exact ⟨j, h, rfl⟩

theorem rounds_add {m n i j : Nat} :
    Rounds R (m + n) i j ↔ ∃ k, Rounds R m i k ∧ Rounds R n k j := by
  induction m generalizing i with
  | zero =>
    rw [Nat.zero_add]
    constructor
    · intro h
      exact ⟨i, rfl, h⟩
    · rintro ⟨k, rfl, h⟩
      exact h
  | succ m ih =>
    rw [Nat.succ_add]
    constructor
    · rintro ⟨k, hik, hkj⟩
      obtain ⟨l, hkl, hlj⟩ := ih.mp hkj
      exact ⟨l, ⟨k, hik, hkl⟩, hlj⟩
    · rintro ⟨l, ⟨k, hik, hkl⟩, hlj⟩
      exact ⟨k, hik, ih.mpr ⟨l, hkl, hlj⟩⟩

theorem reflTransGen_iff_rounds {i j : Nat} :
    Relation.ReflTransGen R i j ↔ ∃ n, Rounds R n i j := by
  constructor
  · intro h
    induction h using Relation.ReflTransGen.head_induction_on with
    | refl => exact ⟨0, rfl⟩
    | head hik _ ih =>
      obtain ⟨n, hn⟩ := ih
      exact ⟨n + 1, _, hik, hn⟩
  · rintro ⟨n, hn⟩
    induction n generalizing i with
    | zero =>
      obtain rfl := hn
      exact .refl
    | succ n ih =>
      obtain ⟨k, hik, hkj⟩ := hn
      exact .head hik (ih hkj)

theorem transGen_iff_rounds {i j : Nat} :
    Relation.TransGen R i j ↔ ∃ n, Rounds R (n + 1) i j := by
  rw [Relation.TransGen.head'_iff]
  constructor
  · rintro ⟨k, hik, hkj⟩
    obtain ⟨n, hn⟩ := reflTransGen_iff_rounds.mp hkj
    exact ⟨n, k, hik, hn⟩
  · rintro ⟨n, k, hik, hn⟩
    exact ⟨k, hik, reflTransGen_iff_rounds.mpr ⟨n, hn⟩⟩

end Rounds

/-! ## Plans of counts -/

namespace Plan

variable {w : Text} {greedy solid : Bool} {p last : Plan} {i j : Nat}

theorem matches_copies {n : Nat} :
    (copies p last n).Matches w i j ↔ ∃ k, Rounds (p.Matches w) n i k ∧ last.Matches w k j := by
  induction n generalizing i with
  | zero =>
    constructor
    · intro h
      exact ⟨i, rfl, h⟩
    · rintro ⟨k, rfl, h⟩
      exact h
  | succ n ih =>
    constructor
    · rintro ⟨l, hil, hlj⟩
      obtain ⟨k, hlk, hkj⟩ := ih.mp hlj
      exact ⟨k, ⟨l, hil, hlk⟩, hkj⟩
    · rintro ⟨k, ⟨l, hil, hlk⟩, hkj⟩
      exact ⟨l, hil, ih.mpr ⟨k, hlk, hkj⟩⟩

theorem matches_atMost {n : Nat} :
    (atMost greedy p n).Matches w i j ↔ ∃ m ≤ n, Rounds (p.Matches w) m i j := by
  induction n generalizing i with
  | zero =>
    constructor
    · intro h
      exact ⟨0, Nat.le_refl 0, h⟩
    · rintro ⟨m, hm, h⟩
      obtain rfl := Nat.le_zero.mp hm
      exact h
  | succ n ih =>
    have hstep : (atMost greedy p (n + 1)).Matches w i j ↔
        i = j ∨ ∃ k, p.Matches w i k ∧ (atMost greedy p n).Matches w k j := by
      cases n with
      | zero => exact or_congr_right rounds_one.symm
      | succ n => rfl
    rw [hstep]
    constructor
    · rintro (h | ⟨k, hik, hkj⟩)
      · exact ⟨0, Nat.zero_le _, h⟩
      · obtain ⟨m, hm, hr⟩ := ih.mp hkj
        exact ⟨m + 1, Nat.succ_le_succ hm, k, hik, hr⟩
    · rintro ⟨m, hm, hr⟩
      cases m with
      | zero => exact .inl hr
      | succ m =>
        obtain ⟨k, hik, hkj⟩ := hr
        exact .inr ⟨k, hik, ih.mpr ⟨m, Nat.le_of_succ_le_succ hm, hkj⟩⟩

theorem matches_anyNumber :
    (anyNumber greedy solid p).Matches w i j ↔ ∃ n, Rounds (p.Matches w) n i j := by
  rw [← reflTransGen_iff_rounds]
  unfold anyNumber
  split
  · rfl
  · show i = j ∨ Relation.TransGen (p.Matches w) i j ↔ _
    rw [Relation.reflTransGen_iff_eq_or_transGen, eq_comm]

/-- A counted plan matches as many rounds as its bounds allow; an upper bound below the lower one
does not count. -/
theorem matches_count {least : Nat} {most : Option Nat} :
    (count greedy solid p least most).Matches w i j ↔
      ∃ n, least ≤ n ∧ (∀ m ∈ most, n ≤ max least m) ∧ Rounds (p.Matches w) n i j := by
  cases most with
  | none =>
    cases least with
    | zero => simpa [count] using matches_anyNumber
    | succ least =>
      rw [count, matches_copies]
      constructor
      · rintro ⟨k, hik, hkj⟩
        obtain ⟨n, hn⟩ := transGen_iff_rounds.mp hkj
        refine ⟨least + (n + 1), by omega, by simp, rounds_add.mpr ⟨k, hik, hn⟩⟩
      · rintro ⟨n, hle, -, hn⟩
        obtain ⟨m, rfl⟩ : ∃ m, n = least + (m + 1) := ⟨n - least - 1, by omega⟩
        obtain ⟨k, hik, hkj⟩ := rounds_add.mp hn
        exact ⟨k, hik, transGen_iff_rounds.mpr ⟨m, hkj⟩⟩
  | some most =>
    have hexact (hle : ¬ least < most) :
        (∃ n, least ≤ n ∧ (∀ m ∈ some most, n ≤ max least m) ∧ Rounds (p.Matches w) n i j) ↔
          Rounds (p.Matches w) least i j := by
      constructor
      · rintro ⟨n, hn, hmost, h⟩
        have := hmost most rfl
        obtain rfl : n = least := by omega
        exact h
      · intro h
        exact ⟨least, Nat.le_refl _, fun m _ => Nat.le_max_left _ _, h⟩
    unfold count
    dsimp only
    split
    · next hlt =>
      rw [matches_copies]
      constructor
      · rintro ⟨k, hik, hkj⟩
        obtain ⟨m, hm, hr⟩ := matches_atMost.mp hkj
        refine ⟨least + m, Nat.le_add_right _ _, ?_, rounds_add.mpr ⟨k, hik, hr⟩⟩
        intro b hb
        obtain rfl := Option.some.inj hb
        omega
      · rintro ⟨n, hle, hmost, hn⟩
        have := hmost most rfl
        obtain ⟨m, rfl⟩ := Nat.exists_eq_add_of_le hle
        obtain ⟨k, hik, hkj⟩ := rounds_add.mp hn
        exact ⟨k, hik, matches_atMost.mpr ⟨m, by omega, hkj⟩⟩
    · next hle =>
      rw [hexact hle]
      cases least with
      | zero => rfl
      | succ least =>
        rw [rounds_add]
        exact matches_copies.trans (exists_congr fun k => and_congr_right fun _ => rounds_one.symm)

end Plan

/-- The plan of an expression matches what the expression matches. -/
theorem matches_plan {w : Text} {r : Regex} {i j : Nat} :
    (plan r).Matches w i j ↔ r.Matches w i j := by
  induction r generalizing i j with
  | empty => rfl
  | chars set => rfl
  | look test => rfl
  | group number a ih => exact ih
  | cat a b iha ihb => exact exists_congr fun k => and_congr iha ihb
  | alt a b iha ihb => exact or_congr iha ihb
  | times greedy least most a ih =>
    have heq : (plan a).Matches w = a.Matches w := by
      funext i j
      exact propext ih
    rw [plan, Plan.matches_count, heq]
    rfl

/-! ## Runs -/

/-- `Runs w todo i j`: working off the steps `todo` may lead from place `i` to place `j`. -/
inductive Runs (w : Text) : List Step → Nat → Nat → Prop where
  | done (i : Nat) : Runs w [] i i
  | take {step : Step} {todo : List Step} {i j : Nat} (h : step.takes w[i]? = true)
      (hr : Runs w todo (i + 1) j) : Runs w (step :: todo) i j
  | branch {step : Step} {t todo : List Step} {i j : Nat}
      (h : t ∈ step.branches (charBefore w i) w[i]?) (hr : Runs w (t ++ todo) i j) :
      Runs w (step :: todo) i j

/-- Whether the part of a text between two places is a match of a step. -/
def Step.Matches (w : Text) : Step → Nat → Nat → Prop
  | enter p _, i, j => p.Matches w i j
  | again _ a _, i, j => Relation.ReflTransGen (a.Matches w) i j

/-- Whether the part of a text between two places is a match of several steps in a row. -/
def StepsMatch (w : Text) : List Step → Nat → Nat → Prop
  | [], i, j => i = j
  | step :: todo, i, j => ∃ k, step.Matches w i k ∧ StepsMatch w todo k j

section Runs

variable {w : Text} {i j k : Nat} {todo : List Step}

theorem stepsMatch_append {t : List Step} :
    StepsMatch w (t ++ todo) i j ↔ ∃ k, StepsMatch w t i k ∧ StepsMatch w todo k j := by
  induction t generalizing i with
  | nil =>
    constructor
    · intro h
      exact ⟨i, rfl, h⟩
    · rintro ⟨k, rfl, h⟩
      exact h
  | cons step t ih =>
    constructor
    · rintro ⟨l, hil, hlj⟩
      obtain ⟨k, hlk, hkj⟩ := ih.mp hlj
      exact ⟨k, ⟨l, hil, hlk⟩, hkj⟩
    · rintro ⟨k, ⟨l, hil, hlk⟩, hkj⟩
      exact ⟨l, hil, ih.mpr ⟨k, hlk, hkj⟩⟩

theorem stepsMatch_singleton {step : Step} : StepsMatch w [step] i j ↔ step.Matches w i j := by
  constructor
  · rintro ⟨k, h, rfl⟩
    exact h
  · intro h
    exact ⟨j, h, rfl⟩

/-- What a branch of a step matches, the step matches. -/
theorem matches_of_mem_branches {step : Step} {t : List Step}
    (ht : t ∈ step.branches (charBefore w i) w[i]?) (h : StepsMatch w t i k) :
    step.Matches w i k := by
  cases step with
  | enter p n =>
    cases p with
    | empty =>
      obtain rfl := List.mem_singleton.mp ht
      exact h
    | chars set => cases ht
    | look test =>
      rw [Step.branches] at ht
      split at ht
      · next hlook =>
        obtain rfl := List.mem_singleton.mp ht
        exact ⟨hlook, h⟩
      · cases ht
    | cat a b =>
      obtain rfl := List.mem_singleton.mp ht
      obtain ⟨l, ha, hb⟩ := h
      exact ⟨l, ha, stepsMatch_singleton.mp hb⟩
    | alt a b =>
      rcases List.mem_cons.mp ht with rfl | ht
      · exact .inl (stepsMatch_singleton.mp h)
      · obtain rfl := List.mem_singleton.mp ht
        exact .inr (stepsMatch_singleton.mp h)
    | optional greedy a =>
      rcases mem_prefer.mp ht with rfl | rfl
      · exact .inr (stepsMatch_singleton.mp h)
      · exact .inl h
    | repeated greedy a =>
      obtain rfl := List.mem_singleton.mp ht
      obtain ⟨l, ha, hagain⟩ := h
      exact Relation.TransGen.head'_iff.mpr ⟨l, ha, stepsMatch_singleton.mp hagain⟩
    | star greedy a =>
      obtain rfl := List.mem_singleton.mp ht
      exact stepsMatch_singleton.mp h
  | again greedy a n =>
    rcases mem_prefer.mp ht with rfl | rfl
    · obtain ⟨l, ha, hagain⟩ := h
      exact .head ha (stepsMatch_singleton.mp hagain)
    · obtain rfl := h
      exact .refl

theorem matches_of_takes {step : Step} (h : step.takes w[i]? = true) :
    step.Matches w i (i + 1) := by
  cases step with
  | again => cases h
  | enter p n =>
    cases p with
    | chars set => exact ⟨h, rfl⟩
    | _ => cases h

theorem stepsMatch_of_runs (h : Runs w todo i j) : StepsMatch w todo i j := by
  induction h with
  | done i => rfl
  | take h _ ih => exact ⟨_, matches_of_takes h, ih⟩
  | branch h _ ih =>
    obtain ⟨k, ht, hk⟩ := stepsMatch_append.mp ih
    exact ⟨k, matches_of_mem_branches h ht, hk⟩

/-- A repetition may go on for as long as its body can be run. -/
theorem runs_again {greedy : Bool} {a : Plan} {n : Nat}
    (ha : ∀ {i k : Nat} {todo : List Step}, a.Matches w i k → Runs w todo k j →
      Runs w (.enter a (n + 1) :: todo) i j)
    (h : Relation.ReflTransGen (a.Matches w) i k) (hr : Runs w todo k j) :
    Runs w (.again greedy a n :: todo) i j := by
  induction h using Relation.ReflTransGen.head_induction_on with
  | refl => exact .branch (mem_prefer.mpr (.inr rfl)) hr
  | head hil _ ih => exact .branch (mem_prefer.mpr (.inl rfl)) (ha hil ih)

theorem runs_enter {p : Plan} {n : Nat} (h : p.Matches w i k) (hr : Runs w todo k j) :
    Runs w (.enter p n :: todo) i j := by
  induction p generalizing n i k todo with
  | empty =>
    obtain rfl := h
    exact .branch (List.mem_singleton_self _) hr
  | chars set =>
    obtain ⟨h, rfl⟩ := h
    exact .take h hr
  | look test =>
    obtain ⟨h, rfl⟩ := h
    refine .branch (t := []) ?_ hr
    rw [Step.branches, if_pos h]
    exact List.mem_singleton_self _
  | cat a b iha ihb =>
    obtain ⟨l, ha, hb⟩ := h
    exact .branch (List.mem_singleton_self _) (iha ha (ihb hb hr))
  | alt a b iha ihb =>
    rcases h with h | h
    · exact .branch List.mem_cons_self (iha h hr)
    · exact .branch (List.mem_cons_of_mem _ List.mem_cons_self) (ihb h hr)
  | optional greedy a ih =>
    rcases h with rfl | h
    · exact .branch (mem_prefer.mpr (.inr rfl)) hr
    · exact .branch (mem_prefer.mpr (.inl rfl)) (ih h hr)
  | repeated greedy a ih =>
    obtain ⟨l, hil, hlk⟩ := Relation.TransGen.head'_iff.mp h
    exact .branch (List.mem_singleton_self _) (ih hil (runs_again ih hlk hr))
  | star greedy a ih => exact .branch (List.mem_singleton_self _) (runs_again ih h hr)

theorem runs_enter_iff {p : Plan} {n : Nat} : Runs w [.enter p n] i j ↔ p.Matches w i j := by
  constructor
  · intro h
    exact stepsMatch_singleton.mp (stepsMatch_of_runs h)
  · intro h
    exact runs_enter h (.done j)

theorem Runs.le (h : Runs w todo i j) : i ≤ j := by
  induction h with
  | done i => exact Nat.le_refl i
  | take _ _ ih => omega
  | branch _ _ ih => exact ih

theorem lt_length_of_takes {step : Step} (h : step.takes w[i]? = true) : i < w.length := by
  rcases Nat.lt_or_ge i w.length with hlt | hge
  · exact hlt
  · rw [List.getElem?_eq_none hge] at h
    cases step with
    | again => cases h
    | enter p n => cases p <;> cases h

/-- A run takes no more characters than there are. -/
theorem Runs.le_length (h : Runs w todo i j) (hi : i ≤ w.length) : j ≤ w.length := by
  induction h with
  | done i => exact hi
  | take h _ ih => exact ih (lt_length_of_takes h)
  | branch _ _ ih => exact ih hi

end Runs

end TextParsing.Regex
