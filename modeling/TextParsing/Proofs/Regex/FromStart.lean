import TextParsing.Proofs.Regex.Leftmost
import TextParsing.Proofs.Regex.Relabel
import TextParsing.Regex.Compose

/-!
# Searches in which no more threads begin

If no more threads begin from some place on, a search finds what it finds with threads beginning
everywhere, provided that this has begun by then; otherwise it finds nothing.  In particular, this holds
from the first place on:

    p.search (fun _ => []) w = fromStart (p.find? w)                       (search_eq_fromStart)

The threads that begin later stand behind the first ones.  They come to nothing that the first ones
do not leave to them, and the first ones do not notice them (`settle_append`); `Front.Divided` says
this of all places of the text.  An expression behind a test for the start of the text is such a
search:

    (plan (seq (look .textStart) r)).find? w = fromStart ((plan r).find? w)
                                                                          (find?_seq_textStart)
-/

namespace TextParsing.Regex

/-- The threads in front come to the same, whether or not others stand behind them.  Those others are
given up if one in front is done, and else they use the labels that are left. -/
theorem settle_append {before after : Option Char} {m : Marks} (threads late : List Thread) :
    (∃ i, (settle before after m threads).done = some i ∧
      settle before after m (threads ++ late) = settle before after m threads) ∨
    ((settle before after m threads).done = none ∧
      ∃ m', settle before after m (threads ++ late) =
        ⟨(settle before after m threads).going ++ (settle before after m' late).going,
          (settle before after m' late).done⟩) := by
  fun_induction settle before after m threads with
  | case1 m => exact .inr ⟨rfl, m, rfl⟩
  | case2 m start threads =>
    refine .inl ⟨start, rfl, ?_⟩
    rw [List.cons_append, settle]
  | case3 m start step todo threads fresh later takes ih =>
    rw [List.cons_append, settle, if_pos fresh, if_pos takes, ← List.append_assoc]
    rcases ih with ⟨i, hdone, heq⟩ | ⟨hdone, m', heq⟩
    · exact .inl ⟨i, hdone, by rw [heq]⟩
    · exact .inr ⟨hdone, m', by rw [heq]; rfl⟩
  | case4 m start step todo threads fresh later takes ih =>
    rw [List.cons_append, settle, if_pos fresh, if_neg takes, ← List.append_assoc]
    exact ih
  | case5 m start step todo threads fresh ih =>
    rw [List.cons_append, settle, if_neg fresh]
    exact ih

/-- What all threads have in common is true of what they come to. -/
theorem start_of_settle (P : Nat → Prop) {before after : Option Char} {m : Marks}
    {threads : List Thread} (h : ∀ t ∈ threads, P t.start) :
    (∀ t ∈ (settle before after m threads).going, P t.start) ∧
      ∀ i, (settle before after m threads).done = some i → P i := by
  constructor
  · intro t ht
    obtain ⟨t', ht', heq, -⟩ := path_of_settle (i := t.start) (u := some t.todo) ht
    exact heq ▸ h t' ht'
  · intro i hi
    obtain ⟨t', ht', heq, -⟩ := path_of_settle (u := none) hi
    exact heq ▸ h t' ht'

/-- The match, if it begins at a place or in front of it. -/
def begunBy (k : Nat) (found : Option Match) : Option Match := found.filter (·.start ≤ k)

/-- The match, if it begins where the text does. -/
def fromStart (found : Option Match) : Option Match := begunBy 0 found

namespace Front

variable {f : Front} {p : Plan} {w : Text} {i k : Nat} {first late : List Thread}

/-- The threads that began by place `k` stand in front of all others, and there are no others once a
match has been found that began by then. -/
structure Divided (f : Front) (k : Nat) (first late : List Thread) : Prop where
  threads : f.threads = first ++ late
  ofFirst : ∀ t ∈ first, t.start ≤ k
  ofLate : ∀ t ∈ late, k < t.start
  alone : (begunBy k f.found).isSome → late = []

/-- What the threads at a place come to, told of the first ones and of the others. -/
theorem Divided.settled (h : f.Divided k first late) :
    let here := settle (charBefore w i) w[i]? (.blank p.size) first
    (∃ j ≤ k, here.done = some j ∧ f.settled p w i = here) ∨
      (here.done = none ∧ ∃ m', f.settled p w i =
        ⟨here.going ++ (settle (charBefore w i) w[i]? m' late).going,
          (settle (charBefore w i) w[i]? m' late).done⟩) := by
  intro here
  rw [Front.settled, h.threads]
  rcases settle_append first late with ⟨j, hdone, heq⟩ | hrest
  · exact .inl ⟨j, (start_of_settle (· ≤ k) h.ofFirst).2 j hdone, hdone, heq⟩
  · exact .inr hrest

theorem Divided.begunBy_best (h : f.Divided k first late) :
    begunBy k (f.best p w i) =
      (settle (charBefore w i) w[i]? (.blank p.size) first).best i (begunBy k f.found) := by
  rw [best]
  rcases h.settled (p := p) (w := w) (i := i) with ⟨j, hj, hdone, heq⟩ | ⟨hdone, m', heq⟩
  · rw [heq, Settled.best, Settled.best, hdone]
    exact Option.filter_some_pos (decide_eq_true hj)
  · rw [heq, Settled.best, Settled.best, hdone]
    cases hlate : (settle (charBefore w i) w[i]? m' late).done with
    | none => rfl
    | some j =>
      -- a later thread is done, so there are later threads and no match that began by then
      have hj : k < j := (start_of_settle (k < ·) h.ofLate).2 j hlate
      have hfound : begunBy k f.found = none := by
        rw [← Option.not_isSome_iff_eq_none]
        intro hsome
        rw [h.alone hsome, settle] at hlate
        cases hlate
      rw [hfound]
      exact Option.filter_eq_none_iff.mpr (by simp; omega)

theorem Divided.next (h : f.Divided k first late) (hk : k ≤ i) :
    ∃ late', (f.next p w i).Divided k
      (settle (charBefore w i) w[i]? (.blank p.size) first).going late' := by
  have hfirst : ∀ t ∈ (settle (charBefore w i) w[i]? (.blank p.size) first).going, t.start ≤ k :=
    (start_of_settle (· ≤ k) h.ofFirst).1
  rcases h.settled (p := p) (w := w) (i := i) with ⟨j, -, hdone, heq⟩ | ⟨hdone, m', heq⟩
  · refine ⟨[], ?_, hfirst, by simp, fun _ => rfl⟩
    have hbest : f.best p w i = some ⟨j, i⟩ := by rw [best, heq, Settled.best, hdone]
    rw [Front.next, hbest, heq]
    rfl
  · refine ⟨(settle (charBefore w i) w[i]? m' late).going ++
      if (f.best p w i).isNone then [p.threadAt (i + 1)] else [], ?_, hfirst, ?_, ?_⟩
    · rw [Front.next, heq, List.append_assoc]
    · intro t ht
      rcases List.mem_append.mp ht with ht | ht
      · exact (start_of_settle (k < ·) h.ofLate).1 t ht
      · split at ht
        · obtain rfl := List.mem_singleton.mp ht
          exact Nat.lt_succ_of_le hk
        · cases ht
    · intro hsome
      have hsome : (begunBy k (f.best p w i)).isSome := hsome
      have hfound := h.begunBy_best (p := p) (w := w) (i := i)
      rw [Settled.best, hdone] at hfound
      have hnone : (f.best p w i).isNone = false := by
        cases hb : f.best p w i with
        | none => rw [hb] at hsome; cases hsome
        | some m => rfl
      rw [hfound] at hsome
      rw [h.alone hsome, settle, hnone]
      rfl

theorem Divided.result (h : f.Divided k first late) (hk : k ≤ i) (hi : i ≤ w.length) :
    follow p.size (fun _ => []) first (begunBy k f.found) i (charBefore w i) (w.drop i) =
      begunBy k (f.result p w i) := by
  generalize hn : w.length - i = n
  induction n generalizing f first late i with
  | zero =>
    have hlen : w.length ≤ i := by omega
    rw [result_of_length_le hlen, h.begunBy_best, List.drop_of_length_le hlen, follow,
      List.getElem?_eq_none hlen]
  | succ n ih =>
    have hlt : i < w.length := by omega
    have hget : w[i]? = some w[i] := List.getElem?_eq_getElem hlt
    obtain ⟨late', hnext⟩ := h.next (p := p) (w := w) hk
    rw [result_of_lt hlt, ← ih hnext (by omega) (by omega) (by omega), List.drop_eq_getElem_cons hlt,
      follow_cons, ← hget, ← h.begunBy_best]
    rfl

/-- If no more threads begin, what is found in the end is what has begun by now. -/
theorem result_begunBy (hbegun : ∀ t ∈ f.threads, t.start ≤ i) (hi : i ≤ w.length) :
    follow p.size (fun _ => []) f.threads (begunBy i f.found) i (charBefore w i) (w.drop i) =
      begunBy i (f.result p w i) := by
  have hdivided : f.Divided i f.threads [] :=
    ⟨(List.append_nil _).symm, hbegun, fun _ h => absurd h List.not_mem_nil, fun _ => rfl⟩
  exact hdivided.result (Nat.le_refl i) hi

end Front

namespace Plan

variable {p : Plan} {w : Text}

/-- A search in which no more threads begin finds what begins where the text does. -/
theorem search_eq_fromStart : p.search (fun _ => []) w = fromStart (p.find? w) := by
  have hbegun : ∀ t ∈ (Front.mk [p.threadAt 0] none).threads, t.start ≤ 0 := by
    intro t ht
    obtain rfl := List.mem_singleton.mp ht
    exact Nat.le_refl 0
  rw [find?_eq_result, fromStart, ← Front.result_begunBy hbegun (Nat.zero_le _)]
  rfl

theorem below_threadAt (p : Plan) {i : Nat} : ∀ t ∈ [p.threadAt i], t.Below p.size := by
  intro t ht s hs
  obtain rfl := List.mem_singleton.mp ht
  obtain rfl := List.mem_singleton.mp hs
  show 0 + p.size ≤ p.size
  omega

/-- Behind a test that holds at the first place, a plan comes to what it comes to by itself, with
labels moved by the two that the test takes. -/
theorem settle_textStart {after : Option Char} :
    settle none after (.blank (p.size + 2)) [(cat (.look .textStart) p).threadAt 0] =
      (settle none after (.blank p.size) [p.threadAt 0]).shift 2 := by
  have hcat : (Marks.blank (p.size + 2)).isFresh 0 = true := Marks.isFresh_blank (by omega)
  have hlook : ((Marks.blank (p.size + 2)).mark 0).isFresh 1 = true :=
    Marks.isFresh_mark.mpr ⟨Marks.isFresh_blank (by omega), by decide⟩
  have hshifted : (Marks.blank p.size).Shifted 2 p.size
      (((Marks.blank (p.size + 2)).mark 0).mark 1) :=
    ((Marks.shifted_blank (Nat.le_refl _)).mark_of_not_mem (.inl (by decide))).mark_of_not_mem
      (.inl (by decide))
  rw [← settle_shift p.below_threadAt hshifted, threadAt, settle]
  show (if (Marks.blank (p.size + 2)).isFresh 0 = true then
    settle none after ((Marks.blank (p.size + 2)).mark 0)
      [⟨0, [.enter (.look .textStart) 1, .enter p 2]⟩] else _) = _
  rw [if_pos hcat, settle]
  show (if ((Marks.blank (p.size + 2)).mark 0).isFresh 1 = true then
    settle none after (((Marks.blank (p.size + 2)).mark 0).mark 1) [⟨0, [.enter p 2]⟩] else _) = _
  rw [if_pos hlook]
  rfl

/-- Behind a test for the start of the text, a plan is searched from there. -/
theorem find?_textStart : (cat (.look .textStart) p).find? w = p.search (fun _ => []) w := by
  have hsize : (cat (.look .textStart) p).size = p.size + 2 := by
    rw [size, size]
    omega
  show follow (cat (.look .textStart) p).size (fun _ => [])
    [(cat (.look .textStart) p).threadAt 0] none 0 none w = follow p.size _ _ _ _ _ w
  rw [hsize]
  cases w with
  | nil =>
    rw [follow, follow, settle_textStart]
    rfl
  | cons c s =>
    rw [follow_cons, follow_cons, settle_textStart]
    exact follow_shift (below_settle p.below_threadAt) (Nat.le_refl _)

/-- A plan that has nothing to do at the first place matches the empty text there. -/
theorem search_of_branches
    (h : ∀ after, (Step.enter p 0).branches none after = [[]] ∧ (Step.enter p 0).takes after = false) :
    p.search (fun _ => []) w = some ⟨0, 0⟩ := by
  have hsettle (after : Option Char) :
      settle none after (.blank p.size) [p.threadAt 0] = ⟨[], some 0⟩ := by
    have hfresh : (Marks.blank p.size).isFresh (Step.enter p 0).label = true :=
      Marks.isFresh_blank p.size_pos
    rw [threadAt, settle, if_pos hfresh, (h after).1, (h after).2]
    show settle none after _ [⟨0, []⟩] = _
    rw [settle]
  cases w with
  | nil =>
    rw [search, follow, hsettle]
    rfl
  | cons c s =>
    rw [search, follow_cons, hsettle, follow_no_threads]
    rfl

end Plan

/-- An expression behind a test for the start of the text is found where the expression itself is
found there, and matches the same. -/
theorem find?_seq_textStart {r : Regex} {w : Text} :
    (plan (seq (look .textStart) r)).find? w = fromStart ((plan r).find? w) := by
  by_cases hr : r = empty
  · subst hr
    rw [seq_empty, plan, plan, ← Plan.search_eq_fromStart]
    show Plan.search (.look .textStart) (fun _ => []) w = _
    rw [Plan.search_of_branches fun _ => ⟨rfl, rfl⟩, Plan.search_of_branches fun _ => ⟨rfl, rfl⟩]
  · have hseq : seq (look .textStart) r = cat (look .textStart) r := if_neg hr
    rw [hseq, plan, plan, Plan.find?_textStart, Plan.search_eq_fromStart]

end TextParsing.Regex
