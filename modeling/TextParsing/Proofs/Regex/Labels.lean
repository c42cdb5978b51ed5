import TextParsing.Regex.Search

/-!
# What a label stands for

A label stands for one place inside a plan, and the place determines everything that is still to be
done there.  `Spot p n todo ts` says that `ts` is to be done at some place of the plan `p`, if its
labels begin at `n` and `todo` is to be done after it.

    Spot p n todo (s :: r) → Spot p n todo (s' :: r') → s.label = s'.label → s :: r = s' :: r'
                                                                          (Spot.eq_of_label_eq)

Working off a step leads from one place to others, so the search only ever meets lists of steps that
belong to a place: `Placed p todo` says so of a list and of all that is left of it later.
-/

namespace TextParsing.Regex

theorem mem_prefer {α : Type} {first : Bool} {a b c : α} : c ∈ prefer first a b ↔ c = a ∨ c = b := by
  cases first with
  | true => simp [prefer]
  | false => simp [prefer, or_comm]

/-- The steps that are to be done at some place of a plan, when `todo` is to be done after it. -/
inductive Spot : Plan → Nat → List Step → List Step → Prop where
  | root (p : Plan) (n : Nat) (todo : List Step) : Spot p n todo (.enter p n :: todo)
  | first {a b : Plan} {n : Nat} {todo ts : List Step}
      (h : Spot a (n + 1) (.enter b (n + 1 + a.size) :: todo) ts) : Spot (.cat a b) n todo ts
  | second {a b : Plan} {n : Nat} {todo ts : List Step} (h : Spot b (n + 1 + a.size) todo ts) :
      Spot (.cat a b) n todo ts
  | preferred {a b : Plan} {n : Nat} {todo ts : List Step} (h : Spot a (n + 1) todo ts) :
      Spot (.alt a b) n todo ts
  | other {a b : Plan} {n : Nat} {todo ts : List Step} (h : Spot b (n + 1 + a.size) todo ts) :
      Spot (.alt a b) n todo ts
  | body {greedy : Bool} {a : Plan} {n : Nat} {todo ts : List Step} (h : Spot a (n + 1) todo ts) :
      Spot (.optional greedy a) n todo ts
  | round {greedy : Bool} {a : Plan} {n : Nat} {todo ts : List Step}
      (h : Spot a (n + 2) (.again greedy a (n + 1) :: todo) ts) : Spot (.repeated greedy a) n todo ts
  | decision (greedy : Bool) (a : Plan) (n : Nat) (todo : List Step) :
      Spot (.repeated greedy a) n todo (.again greedy a (n + 1) :: todo)
  | starRound {greedy : Bool} {a : Plan} {n : Nat} {todo ts : List Step}
      (h : Spot a (n + 2) (.again greedy a (n + 1) :: todo) ts) : Spot (.star greedy a) n todo ts
  | starDecision (greedy : Bool) (a : Plan) (n : Nat) (todo : List Step) :
      Spot (.star greedy a) n todo (.again greedy a (n + 1) :: todo)

/-- What is to be done at the place with the given label. -/
def Plan.spot (p : Plan) (n : Nat) (todo : List Step) (label : Nat) : List Step :=
  if label = n then .enter p n :: todo
  else match p with
    | cat a b =>
      if label < n + 1 + a.size then a.spot (n + 1) (.enter b (n + 1 + a.size) :: todo) label
      else b.spot (n + 1 + a.size) todo label
    | alt a b =>
      if label < n + 1 + a.size then a.spot (n + 1) todo label
      else b.spot (n + 1 + a.size) todo label
    | optional _ a => a.spot (n + 1) todo label
    | repeated greedy a | star greedy a =>
      if label = n + 1 then .again greedy a (n + 1) :: todo
      else a.spot (n + 2) (.again greedy a (n + 1) :: todo) label
    | _ => []

/-- The list begins with a step whose label is one of the plan's and stands for the list. -/
def Located (p : Plan) (n : Nat) (todo ts : List Step) : Prop :=
  ∃ s r, ts = s :: r ∧ n ≤ s.label ∧ s.label < n + p.size ∧ p.spot n todo s.label = ts

/-- What is located in a part of a plan is located in the plan, if the labels of the part stand for
the same in both. -/
theorem Located.within {p q : Plan} {n m : Nat} {todo todo' ts : List Step}
    (h : Located q m todo' ts) (hle : n ≤ m) (hsize : m + q.size ≤ n + p.size)
    (hspot : ∀ l, m ≤ l → l < m + q.size → p.spot n todo l = q.spot m todo' l) :
    Located p n todo ts := by
  obtain ⟨s, r, rfl, hm, hlt, heq⟩ := h
  exact ⟨s, r, rfl, by omega, by omega, by rw [hspot s.label hm hlt, heq]⟩

namespace Spot

variable {p : Plan} {n : Nat} {todo ts : List Step}

theorem located (h : Spot p n todo ts) : Located p n todo ts := by
  induction h with
  | root p n todo =>
    have := p.size_pos
    refine ⟨.enter p n, todo, rfl, Nat.le_refl n, by show n < n + p.size; omega, ?_⟩
    rw [Plan.spot.eq_def]
    exact if_pos rfl
  | first _ ih =>
    refine ih.within (by omega) (by rw [Plan.size]; omega) ?_
    intro l hle hlt
    rw [Plan.spot, if_neg (by omega), if_pos (by omega)]
  | second _ ih =>
    refine ih.within (by omega) (by rw [Plan.size]; omega) ?_
    intro l hle hlt
    rw [Plan.spot, if_neg (by omega), if_neg (by omega)]
  | preferred _ ih =>
    refine ih.within (by omega) (by rw [Plan.size]; omega) ?_
    intro l hle hlt
    rw [Plan.spot, if_neg (by omega), if_pos (by omega)]
  | other _ ih =>
    refine ih.within (by omega) (by rw [Plan.size]; omega) ?_
    intro l hle hlt
    rw [Plan.spot, if_neg (by omega), if_neg (by omega)]
  | body _ ih =>
    refine ih.within (by omega) (by rw [Plan.size]; omega) ?_
    intro l hle hlt
    rw [Plan.spot, if_neg (by omega)]
  | round _ ih =>
    refine ih.within (by omega) (by rw [Plan.size]; omega) ?_
    intro l hle hlt
    rw [Plan.spot, if_neg (by omega), if_neg (by omega)]
  | starRound _ ih =>
    refine ih.within (by omega) (by rw [Plan.size]; omega) ?_
    intro l hle hlt
    rw [Plan.spot, if_neg (by omega), if_neg (by omega)]
  | decision greedy a n todo =>
    have := a.size_pos
    refine ⟨_, todo, rfl, Nat.le_succ n, by show n + 1 < n + (a.size + 2); omega, ?_⟩
    show Plan.spot _ n todo (n + 1) = _
    rw [Plan.spot, if_neg (by omega), if_pos rfl]
  | starDecision greedy a n todo =>
    have := a.size_pos
    refine ⟨_, todo, rfl, Nat.le_succ n, by show n + 1 < n + (a.size + 2); omega, ?_⟩
    show Plan.spot _ n todo (n + 1) = _
    rw [Plan.spot, if_neg (by omega), if_pos rfl]

theorem label_lt {s : Step} {r : List Step} (h : Spot p n todo (s :: r)) :
    s.label < n + p.size := by
  obtain ⟨s', r', heq, -, hlt, -⟩ := h.located
  obtain ⟨rfl, rfl⟩ := List.cons.inj heq
  exact hlt

theorem eq_of_label_eq {s s' : Step} {r r' : List Step} (h : Spot p n todo (s :: r))
    (h' : Spot p n todo (s' :: r')) (hl : s.label = s'.label) : s :: r = s' :: r' := by
  obtain ⟨s₁, r₁, heq₁, -, -, h₁⟩ := h.located
  obtain ⟨s₂, r₂, heq₂, -, -, h₂⟩ := h'.located
  obtain ⟨rfl, rfl⟩ := List.cons.inj heq₁
  obtain ⟨rfl, rfl⟩ := List.cons.inj heq₂
  rw [← h₁, ← h₂, hl]

end Spot

/-- Each of the steps `t`, with those after it and `rest`, belongs to a place of the plan. -/
def Spots (p : Plan) (n : Nat) (todo rest : List Step) : List Step → Prop
  | [] => True
  | s :: t => Spot p n todo (s :: (t ++ rest)) ∧ Spots p n todo rest t

theorem Spots.imp {p q : Plan} {n m : Nat} {todo todo' rest t : List Step}
    (hpq : ∀ ts, Spot p n todo ts → Spot q m todo' ts) (h : Spots p n todo rest t) :
    Spots q m todo' rest t := by
  induction t with
  | nil => trivial
  | cons s t ih => exact ⟨hpq _ h.1, ih h.2⟩

/-- The branches of the step at a place lead to places of the same plan. -/
theorem Spot.branch {p : Plan} {n : Nat} {todo ts : List Step} (h : Spot p n todo ts)
    {s : Step} {r : List Step} (hts : ts = s :: r) {before after : Option Char} {t : List Step}
    (ht : t ∈ s.branches before after) : Spots p n todo r t := by
  induction h with
  | root p n todo =>
    obtain ⟨rfl, rfl⟩ := List.cons.inj hts
    cases p with
    | empty =>
      obtain rfl := List.mem_singleton.mp ht
      trivial
    | chars set => cases ht
    | look test =>
      rw [Step.branches] at ht
      split at ht
      · obtain rfl := List.mem_singleton.mp ht
        trivial
      · cases ht
    | cat a b =>
      obtain rfl := List.mem_singleton.mp ht
      exact ⟨.first (.root _ _ _), .second (.root _ _ _), trivial⟩
    | alt a b =>
      rcases List.mem_cons.mp ht with rfl | ht
      · exact ⟨.preferred (.root _ _ _), trivial⟩
      · obtain rfl := List.mem_singleton.mp ht
        exact ⟨.other (.root _ _ _), trivial⟩
    | optional greedy a =>
      rcases mem_prefer.mp ht with rfl | rfl
      · exact ⟨.body (.root _ _ _), trivial⟩
      · trivial
    | repeated greedy a =>
      obtain rfl := List.mem_singleton.mp ht
      exact ⟨.round (.root _ _ _), .decision _ _ _ _, trivial⟩
    | star greedy a =>
      obtain rfl := List.mem_singleton.mp ht
      exact ⟨.starDecision _ _ _ _, trivial⟩
  | first _ ih => exact (ih hts).imp fun _ => .first
  | second _ ih => exact (ih hts).imp fun _ => .second
  | preferred _ ih => exact (ih hts).imp fun _ => .preferred
  | other _ ih => exact (ih hts).imp fun _ => .other
  | body _ ih => exact (ih hts).imp fun _ => .body
  | round _ ih => exact (ih hts).imp fun _ => .round
  | starRound _ ih => exact (ih hts).imp fun _ => .starRound
  | decision greedy a n todo =>
    obtain ⟨rfl, rfl⟩ := List.cons.inj hts
    rcases mem_prefer.mp ht with rfl | rfl
    · exact ⟨.round (.root _ _ _), .decision _ _ _ _, trivial⟩
    · trivial
  | starDecision greedy a n todo =>
    obtain ⟨rfl, rfl⟩ := List.cons.inj hts
    rcases mem_prefer.mp ht with rfl | rfl
    · exact ⟨.starRound (.root _ _ _), .starDecision _ _ _ _, trivial⟩
    · trivial

/-- Every step of a list, with those after it, belongs to a place of the plan. -/
def Placed (p : Plan) (todo : List Step) : Prop := Spots p 0 [] [] todo

namespace Placed

variable {p : Plan} {s s' : Step} {t r r' : List Step}

theorem start (p : Plan) : Placed p [.enter p 0] := ⟨.root p 0 [], trivial⟩

theorem spot (h : Placed p (s :: r)) : Spot p 0 [] (s :: r) := by
  have := h.1
  rwa [List.append_nil] at this

theorem tail (h : Placed p (s :: r)) : Placed p r := h.2

theorem label_lt (h : Placed p (s :: r)) : s.label < p.size := by
  have := h.spot.label_lt
  omega

theorem eq_of_label_eq (h : Placed p (s :: r)) (h' : Placed p (s' :: r'))
    (hl : s.label = s'.label) : s :: r = s' :: r' := h.spot.eq_of_label_eq h'.spot hl

theorem append (ht : Spots p 0 [] r t) (hr : Placed p r) : Placed p (t ++ r) := by
  induction t with
  | nil => exact hr
  | cons s t ih =>
    refine ⟨?_, ih ht.2⟩
    rw [List.append_nil]
    exact ht.1

theorem branch (h : Placed p (s :: r)) {before after : Option Char}
    (ht : t ∈ s.branches before after) : Placed p (t ++ r) :=
  append (h.spot.branch rfl ht) h.tail

end Placed

end TextParsing.Regex
