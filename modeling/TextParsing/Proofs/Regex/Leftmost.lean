import TextParsing.Proofs.Regex.Matches
import TextParsing.Proofs.Regex.Settling

/-!
# The search finds a leftmost match

    p.find? w = some m → m.start ≤ w.length ∧ p.Matches w m.start m.stop        (matches_of_find?)
    i ≤ w.length → p.Matches w i j → ∃ m, p.find? w = some m ∧ m.start ≤ i       (find?_leftmost)

A `Front` is what the search has at a place of the text: its threads and the match found so far.
One place is done with `Front.next`, and `Front.result` is what the search finds from there on.  Two
facts hold at every place and are carried from the end of the text to its beginning: each match that
is reported belongs to the front or begins later (`Front.Explains`), and whatever the front may
still come to is reported unless something that begins no later is (`Front.Served`).
-/

namespace TextParsing.Regex

/-! ## Runs by places -/

/-- What a run from place `i` to place `j` does once `u` is left at place `i`. -/
def Onward (w : Text) (i j : Nat) : Option (List Step) → Prop
  | none => i = j
  | some todo => i < w.length ∧ Runs w todo (i + 1) j

theorem Path.runs {w : Text} {i j : Nat} {m : Marks} {todo : List Step} {u : Option (List Step)}
    (h : Path (charBefore w i) w[i]? m todo u) (hu : Onward w i j u) : Runs w todo i j := by
  induction h with
  | done =>
    obtain rfl := hu
    exact .done i
  | take _ ht => exact .take ht hu.2
  | branch _ ht _ ih => exact .branch ht (ih hu)

/-- A run goes on from some end of a path. -/
theorem Runs.path {w : Text} {i j : Nat} {p : Plan} {todo : List Step} (hp : Placed p todo)
    (h : Runs w todo i j) :
    ∃ u, Path (charBefore w i) w[i]? (.blank p.size) todo u ∧ Onward w i j u := by
  induction h with
  | done i => exact ⟨none, .done, rfl⟩
  | take h hr _ =>
    exact ⟨_, .take (Marks.isFresh_blank hp.label_lt) h, lt_length_of_takes h, hr⟩
  | branch h _ ih =>
    obtain ⟨u, hpath, hu⟩ := ih (hp.branch h)
    exact ⟨u, .branch (Marks.isFresh_blank hp.label_lt) h hpath, hu⟩

/-! ## Fronts -/

/-- What a search has at a place: its threads, and the match found so far. -/
structure Front where
  threads : List Thread
  found : Option Match

namespace Front

/-- What the threads come to at place `i`. -/
def settled (f : Front) (p : Plan) (w : Text) (i : Nat) : Settled :=
  settle (charBefore w i) w[i]? (.blank p.size) f.threads

/-- The match found up to place `i`. -/
def best (f : Front) (p : Plan) (w : Text) (i : Nat) : Option Match :=
  (f.settled p w i).best i f.found

/-- What the search has at the place after `i`. -/
def next (f : Front) (p : Plan) (w : Text) (i : Nat) : Front where
  threads := (f.settled p w i).going ++
    if (f.best p w i).isNone then [p.threadAt (i + 1)] else []
  found := f.best p w i

/-- The match that the search finds in the end. -/
def result (f : Front) (p : Plan) (w : Text) (i : Nat) : Option Match :=
  follow p.size (fun i => [p.threadAt i]) f.threads f.found i (charBefore w i) (w.drop i)

variable {f : Front} {p : Plan} {w : Text} {i j : Nat}

theorem result_of_length_le (h : w.length ≤ i) : f.result p w i = f.best p w i := by
  rw [result, List.drop_of_length_le h, follow, best, settled, List.getElem?_eq_none h]

theorem follow_nil {labels : Nat} {begin : Nat → List Thread} {m : Match} {i : Nat}
    {before : Option Char} {s : Text} :
    follow labels begin [] (some m) i before s = some m := by
  cases s with
  | nil => simp [follow, settle, Settled.best]
  | cons c s => simp [follow, settle, Settled.best]

theorem result_of_lt (h : i < w.length) : f.result p w i = (f.next p w i).result p w (i + 1) := by
  have hget : w[i]? = some w[i] := List.getElem?_eq_getElem h
  rw [result, List.drop_eq_getElem_cons h, follow, ← hget]
  show (if (f.next p w i).threads.isEmpty then f.best p w i else _) = _
  split
  · next hempty =>
    have hnil : (f.next p w i).threads = [] := List.isEmpty_iff.mp hempty
    cases hbest : f.best p w i with
    | none => simp [next, hbest] at hnil
    | some m =>
      rw [result, hnil]
      show _ = follow _ _ [] (f.best p w i) _ _ _
      rw [hbest, follow_nil]
  · rfl

/-! ## Soundness -/

/-- The match belongs to what the front has at place `i`, or begins later. -/
def Explains (f : Front) (p : Plan) (w : Text) (i : Nat) (m : Match) : Prop :=
  f.found = some m ∨ (∃ t ∈ f.threads, t.start = m.start ∧ Runs w t.todo i m.stop) ∨
    (i < m.start ∧ m.start ≤ w.length ∧ p.Matches w m.start m.stop)

theorem best_eq_some {m : Match} (h : f.best p w i = some m) :
    ((f.settled p w i).done = some m.start ∧ i = m.stop) ∨
      ((f.settled p w i).done = none ∧ f.found = some m) := by
  rw [best, Settled.best] at h
  split at h
  · next hd =>
    cases h
    exact .inl ⟨hd, rfl⟩
  · next hd => exact .inr ⟨hd, h⟩

theorem explains_of_best {m : Match} (h : f.best p w i = some m) : f.Explains p w i m := by
  rcases best_eq_some h with ⟨hd, hi⟩ | ⟨-, hfound⟩
  · obtain ⟨t, ht, hstart, hpath⟩ := path_of_settle (u := none) hd
    exact .inr (.inl ⟨t, ht, hstart, hpath.runs hi⟩)
  · exact .inl hfound

theorem explains_of_next {m : Match} (hi : i < w.length)
    (h : (f.next p w i).Explains p w (i + 1) m) : f.Explains p w i m := by
  rcases h with hfound | ⟨t, ht, hstart, hrun⟩ | ⟨hlt, hle, hm⟩
  · exact explains_of_best hfound
  · rcases List.mem_append.mp ht with ht | ht
    · obtain ⟨t', ht', hstart', hpath⟩ := path_of_settle (i := t.start) (u := some t.todo) ht
      exact .inr (.inl ⟨t', ht', hstart'.trans hstart, hpath.runs ⟨hi, hrun⟩⟩)
    · split at ht
      · obtain rfl := List.mem_singleton.mp ht
        have hstart : i + 1 = m.start := hstart
        have hm : p.Matches w (i + 1) m.stop := runs_enter_iff.mp hrun
        rw [hstart] at hm
        exact .inr (.inr ⟨by omega, by omega, hm⟩)
      · cases ht
  · exact .inr (.inr ⟨by omega, hle, hm⟩)

theorem explains_of_result {m : Match} (hi : i ≤ w.length) (h : f.result p w i = some m) :
    f.Explains p w i m := by
  generalize hn : w.length - i = n
  induction n generalizing f i with
  | zero =>
    rw [result_of_length_le (by omega)] at h
    exact explains_of_best h
  | succ n ih =>
    rw [result_of_lt (by omega)] at h
    exact explains_of_next (by omega) (ih (by omega) h (by omega))

/-! ## Completeness -/

/-- A match is reported that begins at `i` or before. -/
def Reports (r : Option Match) (i : Nat) : Prop := ∃ m, r = some m ∧ m.start ≤ i

theorem Reports.mono {r : Option Match} {i j : Nat} (h : Reports r i) (hij : i ≤ j) :
    Reports r j := by
  obtain ⟨m, hm, hi⟩ := h
  exact ⟨m, hm, Nat.le_trans hi hij⟩

/-- What holds of the front at place `i` throughout a search: the threads belong to the plan, are in
order and have begun, and a match that has been found began no earlier than they did. -/
structure Sane (f : Front) (p : Plan) (i : Nat) : Prop where
  placed : ∀ t ∈ f.threads, Placed p t.todo
  inOrder : InOrder f.threads
  begun : ∀ t ∈ f.threads, t.start ≤ i
  found : ∀ m ∈ f.found, m.start ≤ i ∧ ∀ t ∈ f.threads, t.start ≤ m.start

theorem sane_start (p : Plan) : Sane ⟨[p.threadAt 0], none⟩ p 0 where
  placed := by
    intro t ht
    obtain rfl := List.mem_singleton.mp ht
    exact .start p
  inOrder := List.pairwise_singleton _ _
  begun := by
    intro t ht
    obtain rfl := List.mem_singleton.mp ht
    exact Nat.le_refl 0
  found := by
    intro m hm
    cases hm

/-- A thread that goes on is what became of one that stood at the place. -/
theorem exists_of_mem_going {t : Thread} (ht : t ∈ (f.settled p w i).going) :
    ∃ t' ∈ f.threads, t'.start = t.start ∧
      Path (charBefore w i) w[i]? (.blank p.size) t'.todo (some t.todo) :=
  path_of_settle (i := t.start) (u := some t.todo) ht

/-- A match that is found began no later than what was found before, nor than what it leaves behind
began. -/
theorem Sane.of_best (hf : Sane f p i) {m : Match} (h : f.best p w i = some m) :
    m.start ≤ i ∧ (∀ t ∈ (f.settled p w i).going, t.start ≤ m.start) ∧
      ∀ m' ∈ f.found, m.start ≤ m'.start := by
  rcases best_eq_some h with ⟨hd, -⟩ | ⟨-, hfound⟩
  · obtain ⟨t, ht, hstart, -⟩ := path_of_settle (u := none) hd
    refine ⟨hstart ▸ hf.begun t ht, hf.inOrder.settle.2 _ hd, ?_⟩
    intro m' hm'
    exact hstart ▸ (hf.found m' hm').2 t ht
  · obtain ⟨hi, hle⟩ := hf.found m hfound
    refine ⟨hi, ?_, ?_⟩
    · intro t ht
      obtain ⟨t', ht', hstart, -⟩ := exists_of_mem_going ht
      exact hstart ▸ hle t' ht'
    · intro m' hm'
      rw [hfound] at hm'
      obtain rfl := Option.some.inj hm'
      exact Nat.le_refl _

theorem Sane.next (hf : Sane f p i) : Sane (f.next p w i) p (i + 1) := by
  have hgoing : ∀ t ∈ (f.settled p w i).going, Placed p t.todo ∧ t.start ≤ i := by
    intro t ht
    obtain ⟨t', ht', hstart, hpath⟩ := exists_of_mem_going ht
    exact ⟨hpath.placed rfl (hf.placed t' ht'), hstart ▸ hf.begun t' ht'⟩
  have hbegin {b : Bool} : ∀ t ∈ if b then [p.threadAt (i + 1)] else [],
      t = p.threadAt (i + 1) := by
    intro t ht
    cases b with
    | false => cases ht
    | true => exact List.mem_singleton.mp ht
  refine ⟨?_, ?_, ?_, ?_⟩
  · intro t ht
    rcases List.mem_append.mp ht with ht | ht
    · exact (hgoing t ht).1
    · rw [hbegin t ht]
      exact .start p
  · refine List.pairwise_append.mpr ⟨hf.inOrder.settle.1, ?_, ?_⟩
    · split
      · exact List.pairwise_singleton _ _
      · exact .nil
    · intro a ha b hb
      rw [hbegin b hb]
      exact Nat.le_succ_of_le (hgoing a ha).2
  · intro t ht
    rcases List.mem_append.mp ht with ht | ht
    · exact Nat.le_succ_of_le (hgoing t ht).2
    · rw [hbegin t ht]
      exact Nat.le_refl _
  · intro m hm
    have hm : f.best p w i = some m := hm
    obtain ⟨hi, hle, -⟩ := hf.of_best hm
    refine ⟨Nat.le_succ_of_le hi, ?_⟩
    intro t ht
    have ht : t ∈ (f.settled p w i).going ++
        if (f.best p w i).isNone then [p.threadAt (i + 1)] else [] := ht
    rw [hm] at ht
    rcases List.mem_append.mp ht with ht | ht
    · exact hle t ht
    · cases ht

/-- Whatever may still be found is reported, or something that begins no later. -/
structure Served (f : Front) (p : Plan) (w : Text) (i : Nat) (r : Option Match) : Prop where
  found : ∀ m ∈ f.found, Reports r m.start
  threads : ∀ t ∈ f.threads, ∀ j, Runs w t.todo i j → Reports r t.start
  later : ∀ k j, i < k → k ≤ w.length → p.Matches w k j → Reports r k

/-- What was found before is found, or something that begins no later. -/
theorem Sane.reports_best (hf : Sane f p i) {m : Match} (hm : f.found = some m) :
    Reports (f.best p w i) m.start := by
  cases hb : f.best p w i with
  | none =>
    rw [best, Settled.best] at hb
    split at hb
    · cases hb
    · rw [hm] at hb
      cases hb
  | some m' => exact ⟨m', rfl, (hf.of_best hb).2.2 m hm⟩

/-- What a thread may come to is found, or the thread goes on, or one that began no later. -/
theorem Sane.reports_or_going (hf : Sane f p i) {t : Thread} (ht : t ∈ f.threads)
    (h : Runs w t.todo i j) :
    Reports (f.best p w i) t.start ∨ (i < w.length ∧ ∃ t' ∈ (f.settled p w i).going,
      t'.start ≤ t.start ∧ Runs w t'.todo (i + 1) j) := by
  have hdone {k : Nat} (hk : k ≤ t.start) (hd : (f.settled p w i).done = some k) :
      Reports (f.best p w i) t.start := by
    rw [best, Settled.best, hd]
    exact ⟨⟨k, i⟩, rfl, hk⟩
  obtain ⟨u, hpath, hu⟩ := h.path (hf.placed t ht)
  obtain ⟨k, hk, hhas | hd⟩ := settle_covers hf.placed hf.inOrder t ht hpath
  · cases u with
    | none => exact .inl (hdone hk hhas)
    | some rest => exact .inr ⟨hu.1, ⟨k, rest⟩, hhas, hk, hu.2⟩
  · exact .inl (hdone hk hd)

theorem Sane.served_best (hf : Sane f p i) (hi : w.length ≤ i) :
    Served f p w i (f.best p w i) where
  found := fun _ hm => hf.reports_best hm
  threads := by
    intro t ht j h
    rcases hf.reports_or_going ht h with h | ⟨hlt, -⟩
    · exact h
    · omega
  later := by
    intro k j hk hle
    omega

theorem Sane.served_next (hf : Sane f p i) {r : Option Match}
    (h : Served (f.next p w i) p w (i + 1) r) : Served f p w i r := by
  have hbest {k : Nat} (hk : Reports (f.best p w i) k) : Reports r k := by
    obtain ⟨m, hm, hle⟩ := hk
    exact (h.found m hm).mono hle
  refine ⟨?_, ?_, ?_⟩
  · intro m hm
    exact hbest (hf.reports_best hm)
  · intro t ht j hrun
    rcases hf.reports_or_going ht hrun with hk | ⟨-, t', ht', hle, hrun'⟩
    · exact hbest hk
    · exact (h.threads t' (List.mem_append_left _ ht') j hrun').mono hle
  · intro k j hk hle hm
    cases hb : f.best p w i with
    | some m =>
      have := (hf.of_best hb).1
      exact hbest ⟨m, hb, by omega⟩
    | none =>
      by_cases hki : k = i + 1
      · subst hki
        refine h.threads (p.threadAt (i + 1)) ?_ j (runs_enter_iff.mpr hm)
        show _ ∈ (f.settled p w i).going ++ if (f.best p w i).isNone then _ else _
        rw [hb]
        exact List.mem_append_right _ (List.mem_singleton_self _)
      · exact h.later k j (by omega) hle hm

theorem Sane.served (hf : Sane f p i) : Served f p w i (f.result p w i) := by
  generalize hn : w.length - i = n
  induction n generalizing f i with
  | zero =>
    rw [result_of_length_le (by omega)]
    exact hf.served_best (by omega)
  | succ n ih =>
    rw [result_of_lt (by omega)]
    exact hf.served_next (ih hf.next (by omega))

end Front

/-! ## The search -/

namespace Plan

variable {p : Plan} {w : Text} {i j : Nat}

theorem find?_eq_result : p.find? w = Front.result ⟨[p.threadAt 0], none⟩ p w 0 :=
  find?_eq_search p w

theorem Matches.le (h : p.Matches w i j) : i ≤ j := (runs_enter_iff.mpr h : Runs w [.enter p 0] i j).le

theorem Matches.le_length (h : p.Matches w i j) (hi : i ≤ w.length) : j ≤ w.length :=
  (runs_enter_iff.mpr h : Runs w [.enter p 0] i j).le_length hi

/-- What the search finds is a match. -/
theorem matches_of_find? {m : Match} (h : p.find? w = some m) :
    m.start ≤ w.length ∧ p.Matches w m.start m.stop := by
  rw [find?_eq_result] at h
  rcases Front.explains_of_result (Nat.zero_le _) h with hfound | ⟨t, ht, hstart, hrun⟩ | h
  · cases hfound
  · obtain rfl := List.mem_singleton.mp ht
    rw [← hstart]
    exact ⟨Nat.zero_le _, runs_enter_iff.mp hrun⟩
  · exact h.2

/-- The search finds a match if there is one, and none begins before it. -/
theorem find?_leftmost (hi : i ≤ w.length) (h : p.Matches w i j) :
    ∃ m, p.find? w = some m ∧ m.start ≤ i := by
  have hserved := (Front.sane_start p).served (w := w)
  rw [find?_eq_result]
  by_cases h0 : i = 0
  · subst h0
    exact hserved.threads _ (List.mem_singleton_self _) j (runs_enter_iff.mpr h)
  · exact hserved.later i j (by omega) hi h

end Plan

end TextParsing.Regex
