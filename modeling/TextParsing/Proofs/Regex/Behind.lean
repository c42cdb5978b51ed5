import TextParsing.Proofs.Regex.Preference

/-!
# What stands behind a beginning

If all matches of a beginning have the same end, then what stands behind it is preferred as it is
from there:

    (∀ j, (chain as .empty).Matches w 0 j ↔ j = k) →
      (chain as last).endFrom w 0 = last.endFrom w k                                (endFrom_chain)

Up to place `k` all threads are in the beginning (`Ahead`).  The first of them to come to its end
there goes on to `last`, and all others that do are dropped.  From then on the threads that are still
in the beginning come to nothing, and the others do what they do without them (`Mixed`).
-/

namespace TextParsing.Regex

/-- The plans one after the other, with `last` behind them. -/
def Plan.chain (as : List Plan) (last : Plan) : Plan := as.foldr cat last

/-- How many labels a chain takes before its last plan. -/
def span : List Plan → Nat
  | [] => 0
  | a :: as => a.size + 1 + span as

section

variable {last : Plan} {base k i : Nat} {w : Text}

/-- The steps lead to the end of the beginning, behind which `last` stands with the labels from
`base` on, and they come there at place `k` only. -/
def Ahead (last : Plan) (base k : Nat) (w : Text) (i : Nat) (todo : List Step) : Prop :=
  ∃ us as n, todo = us ++ [.enter (.chain as last) n] ∧ n + span as = base ∧
    (∀ s ∈ us, s.Below base) ∧ ∀ j, Runs w (us ++ [.enter (.chain as .empty) n]) i j → j = k

/-- A step on the way to the end of the beginning, or at it. -/
theorem Ahead.cases {step : Step} {todo : List Step} (h : Ahead last base k w i (step :: todo)) :
    (step = .enter last base ∧ todo = [] ∧ i = k) ∨
    (step.label < base ∧
      (∀ t ∈ step.branches (charBefore w i) w[i]?, Ahead last base k w i (t ++ todo)) ∧
      (step.takes w[i]? = true → Ahead last base k w (i + 1) todo)) := by
  obtain ⟨us, as, n, htodo, hbase, hbelow, hend⟩ := h
  cases us with
  | nil =>
    obtain ⟨rfl, rfl⟩ := List.cons.inj htodo
    cases as with
    | nil =>
      refine .inl ⟨?_, rfl, hend i (runs_enter_iff.mpr rfl)⟩
      rw [← hbase]
      rfl
    | cons a as =>
      have hbase : n + (a.size + 1 + span as) = base := hbase
      refine .inr ⟨by show n < base; omega, ?_, fun h => by cases h⟩
      intro t ht
      obtain rfl := List.mem_singleton.mp ht
      refine ⟨[.enter a (n + 1)], as, n + 1 + a.size, rfl, by omega, ?_, ?_⟩
      · intro s hs
        obtain rfl := List.mem_singleton.mp hs
        show n + 1 + a.size ≤ base
        omega
      · intro j hj
        exact hend j (.branch (List.mem_singleton_self _) hj)
  | cons s us =>
    obtain ⟨rfl, rfl⟩ := List.cons.inj htodo
    have hstep := hbelow step List.mem_cons_self
    refine .inr ⟨hstep.label_lt, ?_, ?_⟩
    · intro t ht
      refine ⟨t ++ us, as, n, (List.append_assoc _ _ _).symm, hbase, ?_, ?_⟩
      · intro s hs
        rcases List.mem_append.mp hs with hs | hs
        · exact hstep.of_mem_branches ht hs
        · exact hbelow s (List.mem_cons_of_mem _ hs)
      · intro j hj
        rw [List.append_assoc] at hj
        exact hend j (.branch ht hj)
    · intro htakes
      exact ⟨us, as, n, rfl, hbase, fun s hs => hbelow s (List.mem_cons_of_mem _ hs),
        fun j hj => hend j (.take htakes hj)⟩

/-- Among the threads are those of the second list, with their labels moved and in the same order, and
all others are still in the beginning. -/
inductive Mixed (last : Plan) (base k : Nat) (w : Text) (i : Nat) :
    List Thread → List Thread → Prop where
  | nil : Mixed last base k w i [] []
  | ahead {t : Thread} {ts ls : List Thread} (h : Ahead last base k w i t.todo)
      (hm : Mixed last base k w i ts ls) : Mixed last base k w i (t :: ts) ls
  | behind {t : Thread} {ts ls : List Thread} (h : t.Below last.size)
      (hm : Mixed last base k w i ts ls) : Mixed last base k w i (t.shift base :: ts) (t :: ls)

namespace Mixed

variable {ts ts' ls ls' : List Thread}

theorem append (h : Mixed last base k w i ts ls) (h' : Mixed last base k w i ts' ls') :
    Mixed last base k w i (ts ++ ts') (ls ++ ls') := by
  induction h with
  | nil => exact h'
  | ahead h _ ih => exact .ahead h ih
  | behind h _ ih => exact .behind h ih

end Mixed

namespace Mixed

variable {start : Nat} {step : Step} {todo : List Step} {ts ls : List Thread}

end Mixed

section

variable {labels : Nat} {found : Option Match} {ts ls : List Thread}

end

end

/-! ## Chains -/

namespace Plan

variable {as : List Plan} {last : Plan} {w : Text} {i j k : Nat}

end Plan

end TextParsing.Regex
