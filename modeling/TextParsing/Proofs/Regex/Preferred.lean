import TextParsing.Proofs.Regex.Preference

/-!
# What is found is preferred

A search finds the match that is preferred of those that begin leftmost:

    p.find? w = some m ↔ p.endFrom w m.start = some m.stop ∧ ∀ i < m.start, p.endFrom w i = none
                                                                                 (find?_eq_some_iff)

When a match is found that begins at place `i`, the threads that have begun before place `i` can come to
nothing (`Front.exists_at_start`).  They are in front of the thread that begins there, and they mark
labels, but a label stands for what is left to do: where one of them marks a label, no other thread that
comes to it could come to anything either.  So the threads that are alive do what they do without the
others (`settle_alive`), and so does the whole search from place `i` on (`map_stop_run`).
-/

namespace TextParsing.Regex

/-! ## Threads that are alive -/

/-- Whether the steps can be worked off from place `i` on. -/
def Alive (w : Text) (i : Nat) (todo : List Step) : Prop := ∃ j, Runs w todo i j

open Classical in
/-- What the threads have to do that can come to something. -/
noncomputable def alive (w : Text) (i : Nat) (threads : List Thread) : List (List Step) :=
  (threads.filter fun t => Alive w i t.todo).map Thread.todo

section

variable {p : Plan} {w : Text} {i start : Nat} {step : Step} {todo : List Step} {t : Thread}
  {threads others : List Thread}

theorem Alive.of_takes (hk : step.takes w[i]? = true) (h : Alive w (i + 1) todo) :
    Alive w i (step :: todo) := by
  obtain ⟨j, hj⟩ := h
  exact ⟨j, .take hk hj⟩

theorem Alive.of_branch {b : List Step} (hb : b ∈ step.branches (charBefore w i) w[i]?)
    (h : Alive w i (b ++ todo)) : Alive w i (step :: todo) := by
  obtain ⟨j, hj⟩ := h
  exact ⟨j, .branch hb hj⟩

theorem alive_append : alive w i (threads ++ others) = alive w i threads ++ alive w i others := by
  rw [alive, List.filter_append, List.map_append]
  rfl

theorem alive_cons_of_alive (h : Alive w i t.todo) :
    alive w i (t :: threads) = t.todo :: alive w i threads := by
  rw [alive, List.filter_cons_of_pos (by simpa using h)]
  rfl

theorem alive_cons_of_not (h : ¬ Alive w i t.todo) :
    alive w i (t :: threads) = alive w i threads := by
  rw [alive, List.filter_cons_of_neg (by simpa using h)]
  rfl

theorem alive_eq_nil_iff : alive w i threads = [] ↔ ∀ t ∈ threads, ¬ Alive w i t.todo := by
  rw [alive, List.map_eq_nil_iff, List.filter_eq_nil_iff]
  simp

theorem alive_eq_cons_iff {rest : List (List Step)} : alive w i threads = todo :: rest ↔
    ∃ dead t late, threads = dead ++ t :: late ∧ (∀ d ∈ dead, ¬ Alive w i d.todo) ∧
      Alive w i t.todo ∧ t.todo = todo ∧ alive w i late = rest := by
  rw [alive, List.map_eq_cons_iff]
  constructor
  · rintro ⟨t, kept, hfilter, rfl, rfl⟩
    obtain ⟨dead, late, rfl, hdead, halive, rfl⟩ := List.filter_eq_cons_iff.mp hfilter
    exact ⟨dead, t, late, rfl, by simpa using hdead, by simpa using halive, rfl, rfl⟩
  · rintro ⟨dead, t, late, rfl, hdead, halive, rfl, rfl⟩
    exact ⟨t, _, List.filter_eq_cons_iff.mpr ⟨dead, late, rfl, by simpa using hdead,
      by simpa using halive, rfl⟩, rfl, rfl⟩

/-- Where the threads began does not matter for what they have to do. -/
theorem alive_branches {start' : Nat} (bs : List (List Step)) (todo : List Step) :
    alive w i (bs.map (Thread.mk start <| · ++ todo)) =
      alive w i (bs.map (Thread.mk start' <| · ++ todo)) := by
  simp [alive, List.filter_map, Function.comp_def]

/-- The branches of a thread that comes to nothing come to nothing. -/
theorem alive_branches_of_not (h : ¬ Alive w i (step :: todo)) :
    alive w i ((step.branches (charBefore w i) w[i]?).map (Thread.mk start <| · ++ todo)) = [] := by
  rw [alive_eq_nil_iff]
  intro t ht
  obtain ⟨b, hb, rfl⟩ := List.mem_map.mp ht
  exact fun halive => h (halive.of_branch hb)

theorem not_alive_of_branches
    (h : ∀ t ∈ Thread.mk start (step :: todo) :: threads, ¬ Alive w i t.todo) :
    ∀ t ∈ (step.branches (charBefore w i) w[i]?).map (Thread.mk start <| · ++ todo) ++ threads,
      ¬ Alive w i t.todo := by
  rw [← alive_eq_nil_iff, alive_append, alive_branches_of_not (h _ List.mem_cons_self),
    alive_eq_nil_iff.mpr fun t ht => h t (List.mem_cons_of_mem _ ht)]
  rfl

/-! ## At a place -/

/-- Whether the marks are the same on the labels of what can come to something. -/
def SameAlive (p : Plan) (w : Text) (i : Nat) (m m' : Marks) : Prop :=
  ∀ step todo, Placed p (step :: todo) → Alive w i (step :: todo) →
    m'.isFresh step.label = m.isFresh step.label

variable {m m' : Marks}

theorem SameAlive.mark (h : SameAlive p w i m m') (label : Nat) :
    SameAlive p w i (m.mark label) (m'.mark label) := by
  intro step todo hp ha
  rw [Bool.eq_iff_iff, Marks.isFresh_mark, Marks.isFresh_mark, h step todo hp ha]

/-- The label of a step that comes to nothing stands for nothing else. -/
theorem sameAlive_mark_of_not (hp : Placed p (step :: todo)) (h : ¬ Alive w i (step :: todo)) :
    SameAlive p w i m (m.mark step.label) := by
  intro step' todo' hp' ha'
  have hne : step'.label ≠ step.label := fun heq => h (hp'.eq_of_label_eq hp heq ▸ ha')
  rw [Bool.eq_iff_iff, Marks.isFresh_mark]
  exact and_iff_left hne

theorem SameAlive.trans {m'' : Marks} (h : SameAlive p w i m m') (h' : SameAlive p w i m' m'') :
    SameAlive p w i m m'' :=
  fun step todo hp ha => (h' step todo hp ha).trans (h step todo hp ha)

theorem SameAlive.symm (h : SameAlive p w i m m') : SameAlive p w i m' m :=
  fun step todo hp ha => (h step todo hp ha).symm

theorem placed_of_branches (hp : ∀ t ∈ Thread.mk start (step :: todo) :: threads, Placed p t.todo) :
    ∀ t ∈ (step.branches (charBefore w i) w[i]?).map (Thread.mk start <| · ++ todo) ++ threads,
      Placed p t.todo :=
  fun _ ht => placed_of_mem_branches hp ht

/-- In front of other threads, those that come to nothing leave them what they have to do, but for labels
of which nothing comes. -/
theorem settle_dead {dead : List Thread} (hp : ∀ t ∈ dead, Placed p t.todo)
    (hd : ∀ t ∈ dead, ¬ Alive w i t.todo) (late : List Thread) :
    ∃ m', SameAlive p w i m m' ∧ ∃ dead', alive w (i + 1) dead' = [] ∧
      settle (charBefore w i) w[i]? m (dead ++ late) =
        ⟨dead' ++ (settle (charBefore w i) w[i]? m' late).going,
          (settle (charBefore w i) w[i]? m' late).done⟩ := by
  fun_induction settle (charBefore w i) w[i]? m dead with
  | case1 m => exact ⟨m, fun _ _ _ _ => rfl, [], rfl, rfl⟩
  | case2 m start threads => exact absurd ⟨i, .done i⟩ (hd _ List.mem_cons_self)
  | case3 m start step todo threads fresh later takes ih =>
    have hhead := hd _ List.mem_cons_self
    obtain ⟨m', hm', dead', hdead', heq⟩ := ih (placed_of_branches hp) (not_alive_of_branches hd)
    refine ⟨m', (sameAlive_mark_of_not (hp _ List.mem_cons_self) hhead).trans hm',
      ⟨start, todo⟩ :: dead', ?_, ?_⟩
    · rwa [alive_cons_of_not fun halive => hhead (halive.of_takes takes)]
    · rw [List.cons_append, settle, if_pos fresh, if_pos takes, ← List.append_assoc, heq]
      rfl
  | case4 m start step todo threads fresh later takes ih =>
    obtain ⟨m', hm', dead', hdead', heq⟩ := ih (placed_of_branches hp) (not_alive_of_branches hd)
    refine ⟨m', (sameAlive_mark_of_not (hp _ List.mem_cons_self) (hd _ List.mem_cons_self)).trans hm',
      dead', hdead', ?_⟩
    rw [List.cons_append, settle, if_pos fresh, if_neg takes, ← List.append_assoc, heq]
  | case5 m start step todo threads fresh ih =>
    obtain ⟨m', hm', dead', hdead', heq⟩ := ih (fun t ht => hp t (List.mem_cons_of_mem _ ht))
      fun t ht => hd t (List.mem_cons_of_mem _ ht)
    refine ⟨m', hm', dead', hdead', ?_⟩
    rw [List.cons_append, settle, if_neg fresh, heq]

/-- Whether two lists of threads come to the same, if what comes to nothing is left out. -/
def Settled.SameAlive (w : Text) (i : Nat) (here here' : Settled) : Prop :=
  here.done.isSome = here'.done.isSome ∧ alive w (i + 1) here.going = alive w (i + 1) here'.going

namespace Settled.SameAlive

variable {here here' : Settled}

theorem cons (start start' : Nat) (h : SameAlive w i here here') :
    SameAlive w i ⟨⟨start, todo⟩ :: here.going, here.done⟩
      ⟨⟨start', todo⟩ :: here'.going, here'.done⟩ := by
  refine ⟨h.1, ?_⟩
  by_cases ha : Alive w (i + 1) todo
  · rw [alive_cons_of_alive ha, alive_cons_of_alive ha, h.2]
  · rw [alive_cons_of_not ha, alive_cons_of_not ha, h.2]

theorem cons_of_not (h : SameAlive w i here here') (ha : ¬ Alive w (i + 1) todo) :
    SameAlive w i ⟨⟨start, todo⟩ :: here.going, here.done⟩ here' := by
  refine ⟨h.1, ?_⟩
  rw [alive_cons_of_not ha, h.2]

theorem behind {dead : List Thread} (h : SameAlive w i here here')
    (hd : alive w (i + 1) dead = []) :
    SameAlive w i here ⟨dead ++ here'.going, here'.done⟩ := by
  refine ⟨h.1, ?_⟩
  rw [alive_append, hd, List.nil_append, h.2]

end Settled.SameAlive

/-- If the first thread of one side is alive, the other side passes over what is in front of a thread
that has the same to do. -/
theorem exists_next_alive {first : List Step} (hp : ∀ t ∈ others, Placed p t.todo)
    (hm : SameAlive p w i m m') (ha : Alive w i first)
    (h : alive w i (⟨start, first⟩ :: threads) = alive w i others) :
    ∃ m'' start' late, SameAlive p w i m m'' ∧ alive w i threads = alive w i late ∧
      (∀ t ∈ Thread.mk start' first :: late, Placed p t.todo) ∧ ∀ here : Settled,
        Settled.SameAlive w i here (settle (charBefore w i) w[i]? m'' (⟨start', first⟩ :: late)) →
        Settled.SameAlive w i here (settle (charBefore w i) w[i]? m' others) := by
  rw [alive_cons_of_alive ha] at h
  obtain ⟨dead, ⟨start', _⟩, late, rfl, hdead, -, rfl, hlate⟩ := alive_eq_cons_iff.mp h.symm
  obtain ⟨m'', hm'', dead', hdead', heq⟩ :=
    settle_dead (fun t ht => hp t (List.mem_append_left _ ht)) hdead _
  refine ⟨m'', start', late, hm.trans hm'', hlate.symm,
    fun t ht => hp t (List.mem_append_right _ ht), fun here hhere => ?_⟩
  rw [heq]
  exact hhere.behind hdead'

/-- The threads that are alive come to the same without the others. -/
theorem settle_alive (hp : ∀ t ∈ threads, Placed p t.todo) (hp' : ∀ t ∈ others, Placed p t.todo)
    (hm : SameAlive p w i m m') (h : alive w i threads = alive w i others) :
    Settled.SameAlive w i (settle (charBefore w i) w[i]? m threads)
      (settle (charBefore w i) w[i]? m' others) := by
  fun_induction settle (charBefore w i) w[i]? m threads generalizing others m' with
  | case1 m =>
    obtain ⟨m'', -, dead', hdead', heq⟩ := settle_dead hp' (alive_eq_nil_iff.mp h.symm) []
    rw [List.append_nil, settle] at heq
    rw [heq]
    exact Settled.SameAlive.behind ⟨rfl, rfl⟩ hdead'
  | case2 m start threads =>
    obtain ⟨m'', start', late, -, -, -, hnext⟩ := exists_next_alive hp' hm ⟨i, .done i⟩ h
    refine hnext _ ?_
    rw [settle]
    exact ⟨rfl, rfl⟩
  | case3 m start step todo threads fresh later takes =>
    rename_i ih
    have hbranches := placed_of_branches (w := w) (i := i) hp
    have hstep := hp _ List.mem_cons_self
    by_cases ha : Alive w i (step :: todo)
    · obtain ⟨m'', start', late, hm, hlate, hlater, hnext⟩ := exists_next_alive hp' hm ha h
      have fresh' : m''.isFresh step.label = true := (hm step todo hstep ha).trans fresh
      refine hnext _ ?_
      rw [settle, if_pos fresh', if_pos takes]
      exact (ih hbranches (placed_of_branches hlater) (hm.mark _)
        (by rw [alive_append, alive_append, alive_branches _ todo, hlate])).cons _ _
    · rw [alive_cons_of_not ha] at h
      exact (ih hbranches hp' ((sameAlive_mark_of_not hstep ha).symm.trans hm)
        (by rw [alive_append, alive_branches_of_not ha, List.nil_append, h])).cons_of_not
          fun halive => ha (halive.of_takes takes)
  | case4 m start step todo threads fresh later takes =>
    rename_i ih
    have hbranches := placed_of_branches (w := w) (i := i) hp
    have hstep := hp _ List.mem_cons_self
    by_cases ha : Alive w i (step :: todo)
    · obtain ⟨m'', start', late, hm, hlate, hlater, hnext⟩ := exists_next_alive hp' hm ha h
      have fresh' : m''.isFresh step.label = true := (hm step todo hstep ha).trans fresh
      refine hnext _ ?_
      rw [settle, if_pos fresh', if_neg takes]
      exact ih hbranches (placed_of_branches hlater) (hm.mark _)
        (by rw [alive_append, alive_append, alive_branches _ todo, hlate])
    · rw [alive_cons_of_not ha] at h
      exact ih hbranches hp' ((sameAlive_mark_of_not hstep ha).symm.trans hm)
        (by rw [alive_append, alive_branches_of_not ha, List.nil_append, h])
  | case5 m start step todo threads fresh ih =>
    have hrest : ∀ t ∈ threads, Placed p t.todo := fun t ht => hp t (List.mem_cons_of_mem _ ht)
    by_cases ha : Alive w i (step :: todo)
    · obtain ⟨m'', start', late, hm, hlate, hlater, hnext⟩ := exists_next_alive hp' hm ha h
      have fresh' : ¬ m''.isFresh step.label = true := by
        rwa [hm step todo (hp _ List.mem_cons_self) ha]
      refine hnext _ ?_
      rw [settle, if_neg fresh']
      exact ih hrest (fun t ht => hlater t (List.mem_cons_of_mem _ ht)) hm hlate
    · rw [alive_cons_of_not ha] at h
      exact ih hrest hp' hm h

end

/-! ## Along the text -/

section

variable {p : Plan} {w : Text} {i : Nat} {threads others : List Thread} {found found' : Option Match}

theorem placed_going (hp : ∀ t ∈ threads, Placed p t.todo) :
    ∀ t ∈ (settledAt p.size threads w i).going, Placed p t.todo := by
  intro t ht
  obtain ⟨t', ht', -, hpath⟩ := path_of_settle (i := t.start) (u := some t.todo) ht
  exact hpath.placed rfl (hp t' ht')

theorem map_stop_best {here here' : Settled} (h : here.done.isSome = here'.done.isSome)
    (hfound : found.map Match.stop = found'.map Match.stop) :
    (here.best i found).map Match.stop = (here'.best i found').map Match.stop := by
  obtain ⟨going, done⟩ := here
  obtain ⟨going', done'⟩ := here'
  cases done <;> cases done' <;> first | exact hfound | rfl | cases h

/-- Where the match ends that is found depends on the threads that are alive, and not on where they
began. -/
theorem map_stop_run (hp : ∀ t ∈ threads, Placed p t.todo) (hp' : ∀ t ∈ others, Placed p t.todo)
    (h : alive w i threads = alive w i others)
    (hfound : found.map Match.stop = found'.map Match.stop) :
    (run p.size threads found w i).map Match.stop = (run p.size others found' w i).map Match.stop := by
  generalize hn : w.length - i = n
  induction n generalizing threads others found found' i with
  | zero =>
    have hend : w.length ≤ i := by omega
    rw [run_of_length_le hend, run_of_length_le hend]
    exact map_stop_best (settle_alive hp hp' (fun _ _ _ _ => rfl) h).1 hfound
  | succ n ih =>
    have hlt : i < w.length := by omega
    obtain ⟨hdone, hgoing⟩ := settle_alive (m := .blank p.size) hp hp' (fun _ _ _ _ => rfl) h
    rw [run_of_lt hlt, run_of_lt hlt]
    exact ih (placed_going hp) (placed_going hp') hgoing (map_stop_best hdone hfound) (by omega)

end

/-! ## The match that is found -/

namespace Front

variable {p : Plan} {w : Text} {m : Match} {k : Nat}

/-- Where a match is found, the search comes to the place at which it begins without having found
anything, with a thread that begins there behind those that have begun before. -/
theorem exists_at_start (h : p.find? w = some m) (hk : k ≤ m.start) :
    ∃ f : Front, f.Sane p k ∧ f.found = none ∧ f.result p w k = some m ∧
      ∃ older, f.threads = older ++ [p.threadAt k] ∧ ∀ t ∈ older, t.start < k := by
  have hlen := (Plan.matches_of_find? h).1
  induction k with
  | zero =>
    rw [Plan.find?_eq_result] at h
    exact ⟨_, sane_start p, rfl, h, [], rfl, nofun⟩
  | succ k ih =>
    obtain ⟨f, hf, -, hresult, -⟩ := ih (by omega)
    rw [result_of_lt (by omega)] at hresult
    have hnone : f.best p w k = none := by
      cases hb : f.best p w k with
      | none => rfl
      | some m' =>
        -- it would be reported, or something that began no later
        obtain ⟨m'', hm'', hle⟩ := (hresult ▸ hf.next.served).found m' hb
        obtain rfl := Option.some.inj hm''
        have := (hf.of_best hb).1
        omega
    refine ⟨f.next p w k, hf.next, hnone, hresult, (f.settled p w k).going, ?_, ?_⟩
    · rw [next, hnone]
      rfl
    · intro t ht
      obtain ⟨t', ht', hstart, -⟩ := exists_of_mem_going ht
      exact Nat.lt_succ_of_le (hstart ▸ hf.begun t' ht')

end Front

namespace Plan

variable {p : Plan} {w : Text} {m : Match}

/-- The match that is found is the preferred one of those that begin where it does. -/
theorem endFrom_of_find? (h : p.find? w = some m) : p.endFrom w m.start = some m.stop := by
  have hlen := (matches_of_find? h).1
  obtain ⟨f, hf, hnone, hresult, older, hthreads, holder⟩ :=
    Front.exists_at_start h (Nat.le_refl _)
  have hdead : alive w m.start older = [] := by
    rw [alive_eq_nil_iff]
    rintro t ht ⟨j, hj⟩
    -- a thread that has begun before and comes to something is reported, or one that has begun no later
    have hserved := hf.served (w := w)
    obtain ⟨m', hm', hle⟩ := hserved.threads t (hthreads ▸ List.mem_append_left _ ht) j hj
    rw [hresult] at hm'
    obtain rfl := Option.some.inj hm'
    have := holder t ht
    omega
  have hrun := Front.result_begunBy (p := p) hf.begun hlen
  rw [hnone, hresult, begunBy, begunBy, Option.filter_some_pos (by simp)] at hrun
  have halive : alive w m.start f.threads = alive w m.start [p.threadAt 0] := by
    rw [hthreads, alive_append, hdead, List.nil_append]
    exact alive_branches [[.enter p 0]] []
  have hplaced : ∀ t ∈ [p.threadAt 0], Placed p t.todo := fun t ht => by
    obtain rfl := List.mem_singleton.mp ht
    exact .start p
  rw [endFrom, ← map_stop_run hf.placed hplaced halive rfl]
  exact congrArg (Option.map Match.stop) hrun

/-- A search finds the match that is preferred of those that begin leftmost. -/
theorem find?_eq_some_iff (hm : m.start ≤ w.length) : p.find? w = some m ↔
    p.endFrom w m.start = some m.stop ∧ ∀ i < m.start, p.endFrom w i = none := by
  constructor
  · intro h
    refine ⟨endFrom_of_find? h, fun i hi => ?_⟩
    cases hend : p.endFrom w i with
    | none => rfl
    | some j =>
      obtain ⟨m', hm', hle⟩ := find?_leftmost (by omega) (matches_of_endFrom hend)
      rw [h] at hm'
      obtain rfl := Option.some.inj hm'
      omega
  · rintro ⟨hend, hfirst⟩
    obtain ⟨m', hm', hle⟩ := find?_leftmost hm (matches_of_endFrom hend)
    have hend' := endFrom_of_find? hm'
    have hstart : m'.start = m.start := by
      by_cases hlt : m'.start < m.start
      · rw [hfirst _ hlt] at hend'
        cases hend'
      · omega
    rw [hstart, hend] at hend'
    obtain ⟨start, stop⟩ := m
    obtain ⟨start', stop'⟩ := m'
    cases hstart
    cases hend'
    exact hm'

end Plan

end TextParsing.Regex
