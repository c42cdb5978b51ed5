import TextParsing.Pattern
import TextParsing.Regex.Plan

/-!
# Leftmost-first search

A search keeps a list of threads, the most preferred first.  A thread is a match in the making: the
place where it began and a list of steps that are still to be done.  At each place of the text all
threads are worked on in order until they want a character (`settle`); those that get the one they
want go on after it.  A thread with nothing left to do is a match, and the threads behind it are
given up; those before it may still replace the match by one that they prefer.  As long as there is
no match, a new thread begins at each place, behind all others.

Every step has a label, and at each place a step with a given label is worked on once.  A second
thread that comes to it is dropped, because whatever follows from it follows from the first one,
too.  So a round of a repetition that consumes nothing is not followed by another one, and a place
costs at most `size p` steps (`Marks.fresh_mark`).

If the form of a plan shows that it only matches where the text begins, threads begin there only,
which changes nothing:

    p.find? s = p.search (fun i => [p.threadAt i]) s                   (find?_eq_search)
-/

namespace TextParsing.Regex

/-! ## Steps -/

/-- A step: match a plan whose labels begin at `label`, or decide whether to go through the body of
a repetition again. -/
inductive Step where
  | enter (p : Plan) (label : Nat)
  | again (greedy : Bool) (body : Plan) (label : Nat)

/-- The two branches of a decision, the preferred one first. -/
def prefer {α : Type} (first : Bool) (a b : α) : List α := if first then [a, b] else [b, a]

namespace Step

/-- The label of the step itself. -/
def label : Step → Nat
  | enter _ n => n
  | again _ _ n => n

/-- The branches of a step that takes no character, each with what it has to do first; `before` and
`after` are the characters around the place. -/
def branches (before after : Option Char) : Step → List (List Step)
  | enter .empty _ => [[]]
  | enter (.chars _) _ => []
  | enter (.look test) _ => if test.holds before after then [[]] else []
  | enter (.cat a b) n => [[enter a (n + 1), enter b (n + 1 + a.size)]]
  | enter (.alt a b) n => [[enter a (n + 1)], [enter b (n + 1 + a.size)]]
  | enter (.optional greedy a) n => prefer greedy [enter a (n + 1)] []
  | enter (.repeated greedy a) n => [[enter a (n + 2), again greedy a (n + 1)]]
  | enter (.star greedy a) n => [[again greedy a (n + 1)]]
  | again greedy a n => prefer greedy [enter a (n + 1), again greedy a n] []

/-- Whether the step is to take the next character, and may. -/
def takes (after : Option Char) : Step → Bool
  | enter (.chars set) _ => after.any set.contains
  | _ => false

/-- No step has more than two branches. -/
theorem length_branches_le (step : Step) (before after : Option Char) :
    (step.branches before after).length ≤ 2 := by
  have hprefer {first : Bool} {a b : List Step} : (prefer first a b).length ≤ 2 := by
    cases first <;> exact Nat.le_refl 2
  unfold branches
  split
  case h_3 => split <;> decide
  case h_6 => exact hprefer
  case h_9 => exact hprefer
  all_goals exact Nat.le_of_ble_eq_true rfl

end Step

/-! ## Marks -/

/-- Which labels have been worked on at a place. -/
structure Marks where
  cells : Array Bool

namespace Marks

/-- The table without marks for a number of labels. -/
def blank (labels : Nat) : Marks := ⟨Array.replicate labels false⟩

/-- Whether the step with this label is still to be worked on. -/
def isFresh (m : Marks) (label : Nat) : Bool := m.cells[label]? == some false

/-- Marks the label. -/
def mark (m : Marks) (label : Nat) : Marks := ⟨m.cells.setIfInBounds label true⟩

/-- How many labels have no mark. -/
def fresh (m : Marks) : Nat := m.cells.count false

theorem fresh_mark {m : Marks} {label : Nat} (h : m.isFresh label = true) :
    (m.mark label).fresh < m.fresh := by
  unfold isFresh at h
  simp only [beq_iff_eq, Array.getElem?_eq_some_iff] at h
  obtain ⟨hlt, hcell⟩ := h
  have hpos : 0 < m.cells.count false :=
    Array.count_pos_iff.mpr (hcell ▸ Array.getElem_mem hlt)
  have hcount : (m.mark label).fresh = m.cells.count false - 1 := by
    unfold mark fresh Array.setIfInBounds
    dsimp only
    rw [dif_pos hlt, Array.count_set, hcell]
    rfl
  rw [hcount]
  exact Nat.sub_lt hpos Nat.one_pos

end Marks

/-! ## A place -/

/-- A match in the making: where it began, and what is still to be done. -/
structure Thread where
  start : Nat
  todo : List Step

/-- What the threads at a place come to: those that go on after the next character, and where the
first one that has nothing left to do began. -/
structure Settled where
  going : List Thread
  done : Option Nat

/-- Works on the threads at a place, the most preferred first. -/
def settle (before after : Option Char) (m : Marks) : List Thread → Settled
  | [] => ⟨[], none⟩
  | ⟨start, []⟩ :: _ => ⟨[], some start⟩
  | ⟨start, step :: todo⟩ :: threads =>
    if m.isFresh step.label then
      let later := settle before after (m.mark step.label)
        ((step.branches before after).map (⟨start, · ++ todo⟩) ++ threads)
      if step.takes after then ⟨⟨start, todo⟩ :: later.going, later.done⟩ else later
    else settle before after m threads
termination_by threads => 2 * m.fresh + threads.length
decreasing_by
  · next h =>
    have := Marks.fresh_mark h
    have := step.length_branches_le before after
    simp only [List.length_append, List.length_map, List.length_cons]
    omega
  · simp

/-! ## Along the text -/

/-- The match at a place, if a thread has come to its end there, or else the one found before. -/
def Settled.best (here : Settled) (index : Nat) (found : Option Match) : Option Match :=
  match here.done with
  | some start => some ⟨start, index⟩
  | none => found

/-- The preferred match.  The threads stand at place `index`, after the character `before`; `found`
is the match that they may replace, and `begin` tells which threads begin at a place. -/
def follow (labels : Nat) (begin : Nat → List Thread) (threads : List Thread)
    (found : Option Match) (index : Nat) (before : Option Char) : Text → Option Match
  | [] => (settle before none (.blank labels) threads).best index found
  | c :: s =>
    let here := settle before (some c) (.blank labels) threads
    let found := here.best index found
    let threads := here.going ++ if found.isNone then begin (index + 1) else []
    if threads.isEmpty then found
    else follow labels begin threads found (index + 1) (some c) s

namespace Plan

/-- The thread that begins at a place. -/
def threadAt (p : Plan) (index : Nat) : Thread := ⟨index, [.enter p 0]⟩

/-- The preferred match among those that begin leftmost, if threads begin at the first place and
where `begin` says. -/
def search (p : Plan) (begin : Nat → List Thread) (s : Text) : Option Match :=
  follow p.size begin [p.threadAt 0] none 0 none s

/-- The preferred match among those that begin leftmost. -/
def find? (p : Plan) (s : Text) : Option Match :=
  p.search (if p.anchored then fun _ => [] else fun i => [p.threadAt i]) s

end Plan

/-! ## Anchored plans -/

/-- Whether a list of steps begins with a plan that only matches where the text begins. -/
def waitsForStart : List Step → Bool
  | .enter p _ :: _ => p.anchored
  | _ => false

theorem waitsForStart_of_mem_branches {b : Char} {after : Option Char} {step : Step}
    {todo t : List Step} (h : waitsForStart (step :: todo) = true)
    (ht : t ∈ step.branches (some b) after) : waitsForStart (t ++ todo) = true := by
  cases step with
  | again => cases h
  | enter p n =>
    cases p with
    | empty => cases h
    | chars set => cases h
    | look test =>
      have : test = .textStart := by simpa [waitsForStart, Plan.anchored] using h
      subst this
      cases ht
    | cat a c =>
      rw [Step.branches, List.mem_singleton] at ht
      subst ht
      exact h
    | alt a c =>
      have ha : a.anchored = true ∧ c.anchored = true := by
        simpa [waitsForStart, Plan.anchored] using h
      simp only [Step.branches, List.mem_cons, List.not_mem_nil, or_false] at ht
      rcases ht with rfl | rfl
      · exact ha.1
      · exact ha.2
    | optional greedy a => cases h
    | repeated greedy a =>
      rw [Step.branches, List.mem_singleton] at ht
      subst ht
      exact h
    | star greedy a => cases h

theorem takes_eq_false_of_waitsForStart {after : Option Char} {step : Step} {todo : List Step}
    (h : waitsForStart (step :: todo) = true) : step.takes after = false := by
  cases step with
  | again => rfl
  | enter p n =>
    cases p with
    | chars set => cases h
    | _ => rfl

theorem settle_of_waitsForStart {b : Char} {after : Option Char} {m : Marks}
    {threads : List Thread} (h : ∀ t ∈ threads, waitsForStart t.todo = true) :
    settle (some b) after m threads = ⟨[], none⟩ := by
  fun_induction settle (some b) after m threads with
  | case1 => rfl
  | case2 => simp [waitsForStart] at h
  | case3 m start step todo threads _ later takes =>
    have ht : step.takes after = false := takes_eq_false_of_waitsForStart (h _ List.mem_cons_self)
    simp [ht] at takes
  | case4 m start step todo threads _ later _ ih =>
    refine ih fun t ht => ?_
    rcases List.mem_append.mp ht with ht | ht
    · obtain ⟨u, hu, rfl⟩ := List.mem_map.mp ht
      exact waitsForStart_of_mem_branches (h _ List.mem_cons_self) hu
    · exact h t (List.mem_cons_of_mem _ ht)
  | case5 m start step todo threads _ ih => exact ih fun t ht => h t (List.mem_cons_of_mem _ ht)

theorem settle_append_of_waitsForStart {b : Char} {after : Option Char} {m : Marks}
    {threads late : List Thread} (h : ∀ t ∈ late, waitsForStart t.todo = true) :
    settle (some b) after m (threads ++ late) = settle (some b) after m threads := by
  fun_induction settle (some b) after m threads with
  | case1 => exact settle_of_waitsForStart h
  | case2 => simp [settle]
  | case3 m start step todo threads fresh later takes ih =>
    rw [List.cons_append, settle, if_pos fresh, if_pos takes, ← List.append_assoc, ih]
  | case4 m start step todo threads fresh later takes ih =>
    rw [List.cons_append, settle, if_pos fresh, if_neg takes, ← List.append_assoc, ih]
  | case5 m start step todo threads fresh ih =>
    rw [List.cons_append, settle, if_neg fresh, ih]

namespace Plan

theorem waitsForStart_of_mem_begin {p : Plan} (h : p.anchored = true) {index : Nat} {wanted : Bool}
    {t : Thread} (ht : t ∈ if wanted then [p.threadAt index] else []) :
    waitsForStart t.todo = true := by
  cases wanted with
  | false => cases ht
  | true =>
    rw [if_pos rfl, List.mem_singleton] at ht
    exact ht ▸ h

theorem follow_of_waitsForStart {p : Plan} (h : p.anchored = true) {labels index : Nat} {b : Char}
    {s : Text} {threads : List Thread} {found : Option Match}
    (ht : ∀ t ∈ threads, waitsForStart t.todo = true) :
    follow labels (fun i => [p.threadAt i]) threads found index (some b) s = found := by
  induction s generalizing threads index b with
  | nil => simp [follow, settle_of_waitsForStart ht, Settled.best]
  | cons c s ih =>
    have rest {ts : List Thread} (hts : ∀ t ∈ ts, waitsForStart t.todo = true) :
        (if ts.isEmpty then found
          else follow labels (fun i => [p.threadAt i]) ts found (index + 1) (some c) s) = found := by
      split
      · rfl
      · exact ih hts
    rw [follow, settle_of_waitsForStart ht]
    exact rest fun t ht => waitsForStart_of_mem_begin h ht

theorem resume_append_of_waitsForStart {p : Plan} (h : p.anchored = true) {labels index : Nat}
    {b : Char} {s : Text} {threads late : List Thread} {found : Option Match}
    (hl : ∀ t ∈ late, waitsForStart t.todo = true) :
    (if (threads ++ late).isEmpty then found
      else follow labels (fun i => [p.threadAt i]) (threads ++ late) found index (some b) s) =
      if threads.isEmpty then found
      else follow labels (fun _ => []) threads found index (some b) s := by
  induction s generalizing threads late found index b with
  | nil =>
    cases threads with
    | nil => simp [follow_of_waitsForStart h hl]
    | cons t ts =>
      rw [List.cons_append, if_neg (by simp), if_neg (by simp), follow, follow, ← List.cons_append,
        settle_append_of_waitsForStart hl]
  | cons c s ih =>
    cases threads with
    | nil => simp [follow_of_waitsForStart h hl]
    | cons t ts =>
      rw [List.cons_append, if_neg (by simp), if_neg (by simp), follow, follow, ← List.cons_append,
        settle_append_of_waitsForStart hl]
      simp only [ite_self, List.append_nil]
      exact ih fun t ht => waitsForStart_of_mem_begin h ht

theorem find?_eq_search (p : Plan) (s : Text) :
    p.find? s = p.search (fun i => [p.threadAt i]) s := by
  unfold find?
  split
  · next h =>
    cases s with
    | nil => rfl
    | cons c s =>
      rw [search, search, follow, follow]
      simp only [ite_self, List.append_nil]
      exact (resume_append_of_waitsForStart h fun t ht => waitsForStart_of_mem_begin h ht).symm
  · rfl

end Plan

end TextParsing.Regex
