import TextParsing.Text

/-!
# The run of characters at the beginning of a text

A text begins with a run of characters that satisfy `ok`, which ends where the text ends or in front of
a character that does not.  The end of the run can also be looked for along the bytes, with the
characters counted on the way (`scanRun`); it is found where the run takes up all bytes before it:

    scanRun ok (byteLength (run ++ rest)) 0 (withOffsets 0 (run ++ rest)) =
      (byteLength run, run.length)                                           (scanRun_withOffsets)
-/

namespace TextParsing.Text

variable {ok : Char → Bool} {run rest : Text}

theorem takeWhile_eq_nil_of_head? (h : ∀ c ∈ rest.head?, ok c = false) :
    rest.takeWhile ok = [] := by
  cases rest with
  | nil => rfl
  | cons c rest => exact List.takeWhile_cons_of_neg (ne_true_of_eq_false (h c rfl))

/-- A run in front of something else is what `takeWhile` takes. -/
theorem takeWhile_append (hrun : ∀ c ∈ run, ok c = true) (hrest : ∀ c ∈ rest.head?, ok c = false) :
    (run ++ rest).takeWhile ok = run := by
  rw [List.takeWhile_append_of_pos hrun, takeWhile_eq_nil_of_head? hrest, List.append_nil]

/-- What follows the longest run does not go on with it. -/
theorem eq_false_of_head?_dropWhile (ok : Char → Bool) (s : Text) :
    ∀ c ∈ (s.dropWhile ok).head?, ok c = false := by
  have h := List.head?_dropWhile_not ok s
  intro c hc
  rw [Option.mem_def] at hc
  rw [hc] at h
  exact h

/-- Every text begins with a run and goes on with something else. -/
theorem exists_run_append (ok : Char → Bool) (s : Text) : ∃ run rest, s = run ++ rest ∧
    (∀ c ∈ run, ok c = true) ∧ ∀ c ∈ rest.head?, ok c = false :=
  ⟨s.takeWhile ok, s.dropWhile ok, List.takeWhile_append_dropWhile.symm,
    List.all_eq_true.mp List.all_takeWhile, eq_false_of_head?_dropWhile ok s⟩

/-! ## Along the bytes -/

/-- The characters of a text, each with the number of the byte at which it begins. -/
def withOffsets (offset : Nat) : Text → List (Nat × Char)
  | [] => []
  | c :: s => (offset, c) :: withOffsets (offset + c.utf8Size) s

/-- Counts the characters that satisfy `ok`, up to the first that does not.  The answer is the offset of
that one, or `stop` if there is none, and the number of the others. -/
def scanRun (ok : Char → Bool) (stop count : Nat) : List (Nat × Char) → Nat × Nat
  | [] => (stop, count)
  | (offset, c) :: cs => if ok c then scanRun ok stop (count + 1) cs else (offset, count)

/-- Along the bytes of a text from some offset on, the run ends behind its last byte. -/
theorem scanRun_withOffsets (hrun : ∀ c ∈ run, ok c = true)
    (hrest : ∀ c ∈ rest.head?, ok c = false) (offset count : Nat) :
    scanRun ok (offset + byteLength (run ++ rest)) count (withOffsets offset (run ++ rest)) =
      (offset + byteLength run, count + run.length) := by
  induction run generalizing offset count with
  | nil =>
    cases rest with
    | nil => rfl
    | cons c rest => exact if_neg (ne_true_of_eq_false (hrest c rfl))
  | cons c run ih =>
    obtain ⟨hc, hrun⟩ := List.forall_mem_cons.mp hrun
    have hnext := ih hrun (offset + c.utf8Size) (count + 1)
    rw [List.cons_append, withOffsets, scanRun, if_pos hc]
    simp only [byteLength_cons, List.length_cons]
    rw [← Nat.add_assoc, hnext, ← Nat.add_assoc, Nat.add_right_comm count, Nat.add_assoc count]

end TextParsing.Text
