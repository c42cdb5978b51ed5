import TextParsing.Proofs.Regex.Labels

/-!
# What the threads at a place come to

`Path before after m todo u` says that the steps `todo` can be worked off at a place, without using
a label that has a mark in `m`, until nothing is left (`u = none`) or a character is taken and the
steps `todo'` are left (`u = some todo'`).  Working on the threads at a place finds exactly the ends
of such paths, except that it need not find those that belong to a later thread than some other
thread which comes to the same end:

    (settle before after m threads).Has i u → ∃ t ∈ threads, t.start = i ∧ Path … t.todo u
                                                                              (path_of_settle)
    t ∈ threads → Path … t.todo u → (settle before after m threads).Covers t.start u
                                                                               (settle_covers)

A step is dropped if its label has a mark.  What would follow from it is not lost, because a path
can be entered at the last place where it uses that label (`Path.avoid`).
-/

namespace TextParsing.Regex

namespace Marks

theorem isFresh_mark {m : Marks} {k l : Nat} :
    (m.mark l).isFresh k = true ↔ m.isFresh k = true ∧ k ≠ l := by
  unfold isFresh mark
  simp only [beq_iff_eq, Array.getElem?_setIfInBounds]
  split
  · next hlk =>
    subst hlk
    split
    · simp
    · next hout =>
      rw [Array.getElem?_eq_none (by omega)]
      simp
  · next hlk =>
    have : k ≠ l := fun h => hlk h.symm
    simp [this]

theorem isFresh_blank {n l : Nat} (h : l < n) : (blank n).isFresh l = true := by
  unfold isFresh blank
  simp [h]

end Marks

/-- What a list of steps can come to at a place, by labels without a mark. -/
inductive Path (before after : Option Char) (m : Marks) : List Step → Option (List Step) → Prop where
  | done : Path before after m [] none
  | take {step : Step} {todo : List Step} (hf : m.isFresh step.label = true)
      (ht : step.takes after = true) : Path before after m (step :: todo) (some todo)
  | branch {step : Step} {t todo : List Step} {u : Option (List Step)}
      (hf : m.isFresh step.label = true) (ht : t ∈ step.branches before after)
      (hp : Path before after m (t ++ todo) u) : Path before after m (step :: todo) u

section

variable {before after : Option Char} {m : Marks} {threads : List Thread} {t : Thread}
  {todo : List Step} {u : Option (List Step)}

namespace Path

theorem isFresh {step : Step} (h : Path before after m (step :: todo) u) :
    m.isFresh step.label = true := by
  cases h with
  | take hf _ => exact hf
  | branch hf _ _ => exact hf

theorem of_mark {l : Nat} (h : Path before after (m.mark l) todo u) :
    Path before after m todo u := by
  induction h with
  | done => exact .done
  | take hf ht => exact .take (Marks.isFresh_mark.mp hf).1 ht
  | branch hf ht _ ih => exact .branch (Marks.isFresh_mark.mp hf).1 ht ih

/-- A path either does not use a label at all, or it can be entered behind the last place where it
does. -/
theorem avoid {p : Plan} {step : Step} {rest : List Step} (hs : Placed p (step :: rest))
    (hp : Placed p todo) (h : Path before after m todo u) :
    Path before after (m.mark step.label) todo u ∨
      (step.takes after = true ∧ u = some rest) ∨
      ∃ t ∈ step.branches before after, Path before after (m.mark step.label) (t ++ rest) u := by
  induction h with
  | done => exact .inl .done
  | @take s r hf ht =>
    by_cases hl : s.label = step.label
    · obtain ⟨rfl, rfl⟩ := List.cons.inj (hp.eq_of_label_eq hs hl)
      exact .inr (.inl ⟨ht, rfl⟩)
    · exact .inl (.take (Marks.isFresh_mark.mpr ⟨hf, hl⟩) ht)
  | @branch s t r u hf ht _ ih =>
    rcases ih (hp.branch ht) with h | h
    · by_cases hl : s.label = step.label
      · obtain ⟨rfl, rfl⟩ := List.cons.inj (hp.eq_of_label_eq hs hl)
        exact .inr (.inr ⟨t, ht, h⟩)
      · exact .inl (.branch (Marks.isFresh_mark.mpr ⟨hf, hl⟩) ht h)
    · exact .inr h

theorem placed {p : Plan} {rest : List Step} (h : Path before after m todo u) (hu : u = some rest)
    (hp : Placed p todo) : Placed p rest := by
  induction h with
  | done => cases hu
  | take =>
    cases hu
    exact hp.tail
  | branch _ ht _ ih => exact ih hu (hp.branch ht)

end Path

/-- A thread that began at `i` has come to the end `u`. -/
def Settled.Has (here : Settled) (i : Nat) : Option (List Step) → Prop
  | none => here.done = some i
  | some todo => ⟨i, todo⟩ ∈ here.going

/-- A thread that began at `i` or earlier has come to the end `u`, or a match that began there has
been found. -/
def Settled.Covers (here : Settled) (i : Nat) (u : Option (List Step)) : Prop :=
  ∃ j ≤ i, here.Has j u ∨ here.done = some j

theorem Settled.Covers.mono {here : Settled} {i j : Nat} (h : here.Covers i u) (hij : i ≤ j) :
    here.Covers j u := by
  obtain ⟨k, hk, h⟩ := h
  exact ⟨k, Nat.le_trans hk hij, h⟩

/-- The threads that take the place of one that branches. -/
theorem mem_branches_append {step : Step} {start : Nat} :
    t ∈ (step.branches before after).map (Thread.mk start <| · ++ todo) ++ threads ↔
      (∃ b ∈ step.branches before after, t = ⟨start, b ++ todo⟩) ∨ t ∈ threads := by
  rw [List.mem_append, List.mem_map]
  refine or_congr_left (exists_congr fun b => and_congr_right fun _ => ?_)
  exact eq_comm

/-- A path of one of the branches is part of one of the thread that branches. -/
theorem path_of_mem_branches {step : Step} {start i : Nat} (hf : m.isFresh step.label = true)
    (h : ∃ t ∈ (step.branches before after).map (Thread.mk start <| · ++ todo) ++ threads,
      t.start = i ∧ Path before after (m.mark step.label) t.todo u) :
    ∃ t ∈ Thread.mk start (step :: todo) :: threads,
      t.start = i ∧ Path before after m t.todo u := by
  obtain ⟨t, ht, hi, hp⟩ := h
  rcases mem_branches_append.mp ht with ⟨b, hb, rfl⟩ | ht
  · exact ⟨_, List.mem_cons_self, hi, .branch hf hb hp.of_mark⟩
  · exact ⟨t, List.mem_cons_of_mem _ ht, hi, hp.of_mark⟩

/-- Every end that is found is the end of a path of one of the threads. -/
theorem path_of_settle {i : Nat} (h : (settle before after m threads).Has i u) :
    ∃ t ∈ threads, t.start = i ∧ Path before after m t.todo u := by
  fun_induction settle before after m threads with
  | case1 => cases u <;> cases h
  | case2 m start threads =>
    cases u with
    | none =>
      cases h
      exact ⟨_, List.mem_cons_self, rfl, .done⟩
    | some todo => cases h
  | case3 m start step todo threads hf later ht ih =>
    cases u with
    | none => exact path_of_mem_branches hf (ih h)
    | some rest =>
      rcases List.mem_cons.mp h with heq | h
      · cases heq
        exact ⟨_, List.mem_cons_self, rfl, .take hf ht⟩
      · exact path_of_mem_branches hf (ih h)
  | case4 m start step todo threads hf later ht ih => exact path_of_mem_branches hf (ih h)
  | case5 m start step todo threads hf ih =>
    obtain ⟨t, ht, hi, hp⟩ := ih h
    exact ⟨t, List.mem_cons_of_mem _ ht, hi, hp⟩

/-- The threads are in the order in which they began. -/
def InOrder (threads : List Thread) : Prop := threads.Pairwise (·.start ≤ ·.start)

theorem InOrder.branches {step : Step} {start : Nat}
    (h : InOrder (⟨start, step :: todo⟩ :: threads)) :
    InOrder ((step.branches before after).map (Thread.mk start <| · ++ todo) ++ threads) := by
  obtain ⟨hle, hin⟩ := List.pairwise_cons.mp h
  refine List.pairwise_append.mpr ⟨?_, hin, ?_⟩
  · exact List.pairwise_map.mpr (List.pairwise_of_forall fun _ _ => Nat.le_refl start)
  · intro a ha b hb
    obtain ⟨_, -, rfl⟩ := List.mem_map.mp ha
    exact hle b hb

theorem InOrder.le_of_mem_branches {step : Step} {start : Nat}
    (h : InOrder (⟨start, step :: todo⟩ :: threads))
    (ht : t ∈ (step.branches before after).map (Thread.mk start <| · ++ todo) ++ threads) :
    start ≤ t.start := by
  rcases mem_branches_append.mp ht with ⟨b, -, rfl⟩ | ht
  · exact Nat.le_refl start
  · exact (List.pairwise_cons.mp h).1 t ht

/-- The order is kept, and what goes on began no later than what is done. -/
theorem InOrder.settle (h : InOrder threads) :
    InOrder (settle before after m threads).going ∧
      ∀ i, (Regex.settle before after m threads).done = some i →
        ∀ t ∈ (Regex.settle before after m threads).going, t.start ≤ i := by
  fun_induction Regex.settle before after m threads with
  | case1 =>
    refine ⟨.nil, ?_⟩
    intro i hi
    cases hi
  | case2 =>
    refine ⟨.nil, ?_⟩
    intro i _ t ht
    cases ht
  | case3 m start step todo threads hf later ht ih =>
    obtain ⟨hin, hdone⟩ := ih h.branches
    refine ⟨List.pairwise_cons.mpr ⟨?_, hin⟩, ?_⟩
    · intro t ht
      obtain ⟨t', ht', heq, -⟩ := path_of_settle (i := t.start) (u := some t.todo) ht
      rw [← heq]
      exact h.le_of_mem_branches ht'
    · intro i hi t ht
      rcases List.mem_cons.mp ht with rfl | ht
      · obtain ⟨t', ht', rfl, -⟩ := path_of_settle (u := none) hi
        exact h.le_of_mem_branches ht'
      · exact hdone i hi t ht
  | case4 m start step todo threads hf later ht ih => exact ih h.branches
  | case5 m start step todo threads hf ih => exact ih (List.pairwise_cons.mp h).2

theorem placed_of_mem_branches {p : Plan} {step : Step} {start : Nat}
    (hp : ∀ t ∈ Thread.mk start (step :: todo) :: threads, Placed p t.todo)
    (ht : t ∈ (step.branches before after).map (Thread.mk start <| · ++ todo) ++ threads) :
    Placed p t.todo := by
  rcases mem_branches_append.mp ht with ⟨b, hb, rfl⟩ | ht
  · exact (hp _ List.mem_cons_self).branch hb
  · exact hp t (List.mem_cons_of_mem _ ht)

/-- What the first thread and the others come to is covered, if it is covered where the first step
is taken and where its label is not used. -/
theorem covers_cons {p : Plan} {step : Step} {start : Nat} {here : Settled}
    (hp : ∀ t ∈ Thread.mk start (step :: todo) :: threads, Placed p t.todo)
    (hin : InOrder (⟨start, step :: todo⟩ :: threads)) (ht : t ∈ ⟨start, step :: todo⟩ :: threads)
    (h : Path before after m t.todo u)
    (htake : step.takes after = true → here.Has start (some todo))
    (hrest : ∀ t' ∈ (step.branches before after).map (Thread.mk start <| · ++ todo) ++ threads,
      Path before after (m.mark step.label) t'.todo u → here.Covers t'.start u) :
    here.Covers t.start u := by
  have hstart : start ≤ t.start := by
    rcases List.mem_cons.mp ht with rfl | ht
    · exact Nat.le_refl start
    · exact (List.pairwise_cons.mp hin).1 t ht
  rcases h.avoid (hp _ List.mem_cons_self) (hp t ht) with h | ⟨hk, rfl⟩ | ⟨b, hb, h⟩
  · rcases List.mem_cons.mp ht with rfl | ht
    · exact absurd rfl (Marks.isFresh_mark.mp h.isFresh).2
    · exact hrest t (mem_branches_append.mpr (.inr ht)) h
  · exact ⟨start, hstart, .inl (htake hk)⟩
  · exact (hrest _ (mem_branches_append.mpr (.inl ⟨b, hb, rfl⟩)) h).mono hstart

/-- Every end of a path of one of the threads is found, unless the search is over before. -/
theorem settle_covers {p : Plan} (hp : ∀ t ∈ threads, Placed p t.todo) (hin : InOrder threads) :
    ∀ t ∈ threads, Path before after m t.todo u →
      (settle before after m threads).Covers t.start u := by
  fun_induction settle before after m threads with
  | case1 =>
    intro t ht
    cases ht
  | case2 m start threads =>
    intro t ht _
    refine ⟨start, ?_, .inr rfl⟩
    rcases List.mem_cons.mp ht with rfl | ht
    · exact Nat.le_refl start
    · exact (List.pairwise_cons.mp hin).1 t ht
  | case3 m start step todo threads hf later hk ih =>
    intro t ht h
    refine covers_cons hp hin ht h ?_ ?_
    · intro _
      exact List.mem_cons_self
    · intro t' ht' h'
      obtain ⟨j, hj, hc⟩ := ih (fun t ht => placed_of_mem_branches hp ht) hin.branches t' ht' h'
      refine ⟨j, hj, hc.imp_left ?_⟩
      intro hhas
      cases u with
      | none => exact hhas
      | some rest => exact List.mem_cons_of_mem _ hhas
  | case4 m start step todo threads hf later hk ih =>
    intro t ht h
    refine covers_cons hp hin ht h ?_ ?_
    · intro htake
      exact absurd htake hk
    · exact ih (fun t ht => placed_of_mem_branches hp ht) hin.branches
  | case5 m start step todo threads hf ih =>
    intro t ht h
    rcases List.mem_cons.mp ht with rfl | ht
    · exact absurd h.isFresh hf
    · exact ih (fun t ht => hp t (List.mem_cons_of_mem _ ht)) (List.pairwise_cons.mp hin).2 t ht h

end

end TextParsing.Regex
