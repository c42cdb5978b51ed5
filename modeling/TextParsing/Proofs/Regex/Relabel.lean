import TextParsing.Proofs.Regex.Settling

/-!
# Labels may be moved

What a search finds does not depend on the numbers that are its labels, but only on which steps have
the same one.  `shift k` adds `k` to all labels of a step, of a thread or of what threads come to.
Threads that need only the labels below `n` (`Thread.Below`) come to the same with shifted labels, if
the same ones of these labels are fresh (`Marks.Shifted`), and a search in which no more threads begin
finds the same match:

    settle before after m' (threads.map (·.shift k)) = (settle before after m threads).shift k
                                                                                   (settle_shift)
    follow labels (fun _ => []) (threads.map (·.shift k)) found i before s =
      follow n (fun _ => []) threads found i before s                             (follow_shift)

Nor does it matter what other labels are used by threads that stand behind them
(`settle_shift_append`).
-/

namespace TextParsing.Regex

variable {k n : Nat}

theorem map_prefer {α β : Type} (f : α → β) (first : Bool) (a b : α) :
    (prefer first a b).map f = prefer first (f a) (f b) := by
  cases first <;> rfl

/-- The step with its labels moved. -/
def Step.shift (k : Nat) : Step → Step
  | enter p n => enter p (n + k)
  | again greedy a n => again greedy a (n + k)

/-- The thread with its labels moved. -/
def Thread.shift (k : Nat) (t : Thread) : Thread := ⟨t.start, t.todo.map (Step.shift k)⟩

/-- What threads come to, with their labels moved. -/
def Settled.shift (k : Nat) (here : Settled) : Settled :=
  ⟨here.going.map (Thread.shift k), here.done⟩

namespace Step

@[simp] theorem label_shift (s : Step) : (s.shift k).label = s.label + k := by
  cases s <;> rfl

@[simp] theorem takes_shift (after : Option Char) (s : Step) :
    (s.shift k).takes after = s.takes after := by
  cases s with
  | enter p n => cases p <;> rfl
  | again => rfl

theorem branches_shift (before after : Option Char) (s : Step) :
    (s.shift k).branches before after = (s.branches before after).map (List.map (shift k)) := by
  have hone (n : Nat) : n + k + 1 = n + 1 + k := Nat.add_right_comm n k 1
  have htwo (n : Nat) : n + k + 2 = n + 2 + k := Nat.add_right_comm n k 2
  have hbehind (n m : Nat) : n + 1 + k + m = n + 1 + m + k := Nat.add_right_comm (n + 1) k m
  cases s with
  | again greedy a n => simp only [shift, branches, map_prefer, List.map_cons, List.map_nil, hone]
  | enter p n =>
    cases p with
    | look test =>
      simp only [shift, branches]
      split <;> rfl
    | optional greedy a =>
      simp only [shift, branches, map_prefer, List.map_cons, List.map_nil, hone]
    | _ => simp only [shift, branches, List.map_cons, List.map_nil, hone, htwo, hbehind]

end Step

/-! ## Which labels are needed -/

/-- All labels that working off the step may need are below `n`. -/
def Step.Below (n : Nat) : Step → Prop
  | enter p l => l + p.size ≤ n
  | again _ a l => l + 1 + a.size ≤ n

/-- All labels that the thread may need are below `n`. -/
def Thread.Below (n : Nat) (t : Thread) : Prop := ∀ s ∈ t.todo, s.Below n

theorem Step.Below.label_lt {s : Step} (h : s.Below n) : s.label < n := by
  cases s with
  | enter p l =>
    have h : l + p.size ≤ n := h
    have := p.size_pos
    show l < n
    omega
  | again greedy a l =>
    have h : l + 1 + a.size ≤ n := h
    show l < n
    omega

theorem Step.Below.of_mem_branches {s u : Step} {t : List Step} {before after : Option Char}
    (h : s.Below n) (ht : t ∈ s.branches before after) (hu : u ∈ t) : u.Below n := by
  cases s with
  | again greedy a l =>
    have h : l + 1 + a.size ≤ n := h
    rcases mem_prefer.mp ht with rfl | rfl
    · simp only [List.mem_cons, List.not_mem_nil, or_false] at hu
      rcases hu with rfl | rfl
      · exact h
      · exact h
    · cases hu
  | enter p l =>
    have h : l + p.size ≤ n := h
    cases p with
    | empty =>
      obtain rfl := List.mem_singleton.mp ht
      cases hu
    | chars => cases ht
    | look test =>
      rw [branches] at ht
      split at ht
      · obtain rfl := List.mem_singleton.mp ht
        cases hu
      · cases ht
    | cat a b =>
      rw [Plan.size] at h
      obtain rfl := List.mem_singleton.mp ht
      simp only [List.mem_cons, List.not_mem_nil, or_false] at hu
      rcases hu with rfl | rfl
      · show l + 1 + a.size ≤ n
        omega
      · show l + 1 + a.size + b.size ≤ n
        omega
    | alt a b =>
      rw [Plan.size] at h
      simp only [branches, List.mem_cons, List.not_mem_nil, or_false] at ht
      rcases ht with rfl | rfl
      · obtain rfl := List.mem_singleton.mp hu
        show l + 1 + a.size ≤ n
        omega
      · obtain rfl := List.mem_singleton.mp hu
        show l + 1 + a.size + b.size ≤ n
        omega
    | optional greedy a =>
      rw [Plan.size] at h
      rcases mem_prefer.mp ht with rfl | rfl
      · obtain rfl := List.mem_singleton.mp hu
        show l + 1 + a.size ≤ n
        omega
      · cases hu
    | repeated greedy a =>
      rw [Plan.size] at h
      obtain rfl := List.mem_singleton.mp ht
      simp only [List.mem_cons, List.not_mem_nil, or_false] at hu
      rcases hu with rfl | rfl
      · show l + 2 + a.size ≤ n
        omega
      · show l + 1 + 1 + a.size ≤ n
        omega
    | star greedy a =>
      rw [Plan.size] at h
      obtain rfl := List.mem_singleton.mp ht
      obtain rfl := List.mem_singleton.mp hu
      show l + 1 + 1 + a.size ≤ n
      omega

/-- The threads that take the place of one that branches need no more labels. -/
theorem below_of_mem_branches {step : Step} {todo : List Step} {start : Nat}
    {threads : List Thread} {before after : Option Char}
    (h : ∀ t ∈ Thread.mk start (step :: todo) :: threads, t.Below n) :
    ∀ t ∈ (step.branches before after).map (Thread.mk start <| · ++ todo) ++ threads, t.Below n := by
  intro t ht
  have hfirst := h _ List.mem_cons_self
  rcases mem_branches_append.mp ht with ⟨b, hb, rfl⟩ | ht
  · intro s hs
    rcases List.mem_append.mp hs with hs | hs
    · exact (hfirst _ List.mem_cons_self).of_mem_branches hb hs
    · exact hfirst _ (List.mem_cons_of_mem _ hs)
  · exact h t (List.mem_cons_of_mem _ ht)

theorem below_of_path {before after : Option Char} {m : Marks} {todo rest : List Step}
    {u : Option (List Step)} (h : Path before after m todo u) (hu : u = some rest)
    (hb : ∀ s ∈ todo, s.Below n) : ∀ s ∈ rest, s.Below n := by
  induction h with
  | done => cases hu
  | take =>
    cases hu
    exact fun s hs => hb s (List.mem_cons_of_mem _ hs)
  | branch _ ht _ ih =>
    refine ih hu fun s hs => ?_
    rcases List.mem_append.mp hs with hs | hs
    · exact (hb _ List.mem_cons_self).of_mem_branches ht hs
    · exact hb s (List.mem_cons_of_mem _ hs)

theorem below_settle {before after : Option Char} {m : Marks} {threads : List Thread}
    (h : ∀ t ∈ threads, t.Below n) : ∀ t ∈ (settle before after m threads).going, t.Below n := by
  intro t ht
  obtain ⟨t', ht', -, hpath⟩ := path_of_settle (i := t.start) (u := some t.todo) ht
  exact below_of_path hpath rfl (h t' ht')

/-! ## Marks -/

namespace Marks

/-- The same ones of the first `n` labels are fresh in both tables, but for the distance between
them. -/
def Shifted (k n : Nat) (m m' : Marks) : Prop := ∀ l < n, m'.isFresh (l + k) = m.isFresh l

variable {m m' : Marks}

theorem isFresh_mark_eq (m : Marks) (i l : Nat) :
    (m.mark l).isFresh i = (m.isFresh i && decide (i ≠ l)) := by
  rw [Bool.eq_iff_iff, isFresh_mark, Bool.and_eq_true, decide_eq_true_eq]

theorem shifted_blank {labels : Nat} (h : n + k ≤ labels) :
    Shifted k n (blank n) (blank labels) := by
  intro l hl
  rw [isFresh_blank hl, isFresh_blank (by omega)]

theorem Shifted.mark (h : Shifted k n m m') (l : Nat) :
    Shifted k n (m.mark l) (m'.mark (l + k)) := by
  intro i hi
  rw [isFresh_mark_eq, isFresh_mark_eq, h i hi]
  simp

/-- Other labels do not matter. -/
theorem Shifted.mark_of_not_mem (h : Shifted k n m m') {l : Nat} (hl : l < k ∨ n + k ≤ l) :
    Shifted k n m (m'.mark l) := by
  intro i hi
  have hne : i + k ≠ l := by omega
  rw [isFresh_mark_eq, h i hi, decide_eq_true hne, Bool.and_true]

end Marks

/-! ## A place -/

/-- What threads come to, with what those behind them come to. -/
def Settled.andThen (here behind : Settled) : Settled :=
  match here.done with
  | some i => ⟨here.going, some i⟩
  | none => ⟨here.going ++ behind.going, behind.done⟩

theorem Settled.andThen_nil (here : Settled) : here.andThen ⟨[], none⟩ = here := by
  obtain ⟨going, done⟩ := here
  cases done with
  | none => simp [andThen]
  | some i => rfl

theorem Settled.andThen_cons (t : Thread) (here behind : Settled) :
    (Settled.mk (t :: here.going) here.done).andThen behind =
      ⟨t :: (here.andThen behind).going, (here.andThen behind).done⟩ := by
  obtain ⟨going, done⟩ := here
  cases done <;> rfl

theorem map_branches_shift {before after : Option Char} (start : Nat) (step : Step)
    (todo : List Step) (threads : List Thread) :
    ((step.shift k).branches before after).map (Thread.mk start <| · ++ todo.map (Step.shift k)) ++
      threads.map (Thread.shift k) =
    ((step.branches before after).map (Thread.mk start <| · ++ todo) ++ threads).map
      (Thread.shift k) := by
  rw [Step.branches_shift, List.map_append, List.map_map, List.map_map]
  simp [Function.comp_def, Thread.shift]

/-- Threads come to the same with labels that have been moved, and those behind them to what they come
to if these labels do not matter. -/
theorem settle_shift_append {before after : Option Char} {m : Marks} {threads late : List Thread}
    {behind : Settled} (hb : ∀ t ∈ threads, t.Below n) : ∀ {m' : Marks}, m.Shifted k n m' →
    (∀ m'' : Marks, (∀ l, l < k ∨ n + k ≤ l → m''.isFresh l = m'.isFresh l) →
      settle before after m'' late = behind) →
    settle before after m' (threads.map (Thread.shift k) ++ late) =
      ((settle before after m threads).shift k).andThen behind := by
  fun_induction settle before after m threads with
  | case1 =>
    intro m' _ hlate
    exact hlate m' fun _ _ => rfl
  | case2 m start threads =>
    intro m' _ _
    rw [List.map_cons, Thread.shift, List.map_nil, List.cons_append, settle]
    rfl
  | case3 m start step todo threads fresh later takes ih =>
    intro m' h hlate
    have hlabel := (hb _ List.mem_cons_self step List.mem_cons_self).label_lt
    have hrest := ih (below_of_mem_branches hb) (h.mark step.label) fun m'' hm'' => hlate m'' ?_
    · rw [List.map_cons, Thread.shift, List.map_cons, List.cons_append, settle, Step.label_shift,
        h _ hlabel, if_pos fresh, Step.takes_shift, if_pos takes, ← List.append_assoc,
        map_branches_shift, hrest]
      exact (Settled.andThen_cons _ _ _).symm
    · intro l hl
      rw [hm'' l hl, Marks.isFresh_mark_eq, decide_eq_true (by omega), Bool.and_true]
  | case4 m start step todo threads fresh later takes ih =>
    intro m' h hlate
    have hlabel := (hb _ List.mem_cons_self step List.mem_cons_self).label_lt
    have hrest := ih (below_of_mem_branches hb) (h.mark step.label) fun m'' hm'' => hlate m'' ?_
    · rw [List.map_cons, Thread.shift, List.map_cons, List.cons_append, settle, Step.label_shift,
        h _ hlabel, if_pos fresh, Step.takes_shift, if_neg takes, ← List.append_assoc,
        map_branches_shift, hrest]
    · intro l hl
      rw [hm'' l hl, Marks.isFresh_mark_eq, decide_eq_true (by omega), Bool.and_true]
  | case5 m start step todo threads fresh ih =>
    intro m' h hlate
    have hlabel := (hb _ List.mem_cons_self step List.mem_cons_self).label_lt
    rw [List.map_cons, Thread.shift, List.map_cons, List.cons_append, settle, Step.label_shift,
      h _ hlabel, if_neg fresh]
    exact ih (fun t ht => hb t (List.mem_cons_of_mem _ ht)) h hlate

theorem settle_shift {before after : Option Char} {m m' : Marks} {threads : List Thread}
    (hb : ∀ t ∈ threads, t.Below n) (h : m.Shifted k n m') :
    settle before after m' (threads.map (Thread.shift k)) =
      (settle before after m threads).shift k := by
  have happend : settle before after m' (threads.map (Thread.shift k) ++ []) =
      ((settle before after m threads).shift k).andThen ⟨[], none⟩ :=
    settle_shift_append hb h fun m'' _ => by rw [settle]
  rwa [List.append_nil, Settled.andThen_nil] at happend

/-! ## Searches in which no more threads begin -/

section

variable {labels i : Nat} {found : Option Match} {before : Option Char} {threads : List Thread}

theorem follow_no_threads {s : Text} :
    follow labels (fun _ => []) [] found i before s = found := by
  cases s <;> simp [follow, settle, Settled.best]

theorem follow_cons {c : Char} {s : Text} :
    follow labels (fun _ => []) threads found i before (c :: s) =
      follow labels (fun _ => []) (settle before (some c) (.blank labels) threads).going
        ((settle before (some c) (.blank labels) threads).best i found) (i + 1) (some c) s := by
  rw [follow]
  simp only [ite_self, List.append_nil]
  split
  · next hempty => rw [List.isEmpty_iff.mp hempty, follow_no_threads]
  · rfl

/-- The labels may be moved. -/
theorem follow_shift {s : Text} (hb : ∀ t ∈ threads, t.Below n) (hlabels : n + k ≤ labels) :
    follow labels (fun _ => []) (threads.map (Thread.shift k)) found i before s =
      follow n (fun _ => []) threads found i before s := by
  have hblank := Marks.shifted_blank hlabels
  induction s generalizing threads found i before with
  | nil =>
    rw [follow, follow, settle_shift hb hblank]
    rfl
  | cons c s ih =>
    rw [follow_cons, follow_cons, settle_shift hb hblank]
    exact ih (below_settle hb)

end

end TextParsing.Regex
