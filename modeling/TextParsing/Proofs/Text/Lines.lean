import Mathlib.Algebra.GroupWithZero.Nat
import Mathlib.Data.List.Infix
import TextParsing.Text

/-!
# The lines of a text

`splitLines` cuts a text at its newlines: no line has one, and the lines with newlines between them
are the text again.  `unlines` ends every line with a newline, so that it writes what stands in front
of a line:

    ['\n'].intercalate (splitLines s) = s                                  (intercalate_splitLines)
    ['\n'].intercalate (before ++ line :: after) =
      unlines before ++ (line ++ after.flatMap ('\n' :: ·))                    (intercalate_append)

Every byte of a text, and its end, belongs to one of the lines (`exists_line_of_le`); the newline
behind a line counts as a byte of this line.
-/

namespace TextParsing.Text

/-- The lines, each with a newline behind it. -/
def unlines (lines : List Text) : Text := lines.flatMap (· ++ ['\n'])

@[simp] theorem unlines_nil : unlines [] = [] := rfl

@[simp] theorem unlines_cons (line : Text) (lines : List Text) :
    unlines (line :: lines) = line ++ '\n' :: unlines lines := by
  unfold unlines
  rw [List.flatMap_cons, List.append_assoc, List.singleton_append]

@[simp] theorem unlines_append (lines lines' : List Text) :
    unlines (lines ++ lines') = unlines lines ++ unlines lines' :=
  List.flatMap_append

/-- What stands in front of a line is nothing or ends with a newline. -/
theorem unlines_eq_nil_or (lines : List Text) :
    unlines lines = [] ∨ (unlines lines).getLast? = some '\n' := by
  rcases List.eq_nil_or_concat lines with rfl | ⟨lines, line, rfl⟩
  · exact .inl rfl
  · right
    rw [List.concat_eq_append, unlines_append, unlines_cons, unlines_nil, ← List.append_assoc,
      List.getLast?_concat]

theorem byteLength_newline_cons (s : Text) : byteLength ('\n' :: s) = byteLength s + 1 :=
  Nat.add_comm _ _

theorem byteLength_unlines (lines : List Text) :
    byteLength (unlines lines) = (lines.map (byteLength · + 1)).sum := by
  induction lines with
  | nil => rfl
  | cons line lines ih =>
    rw [unlines_cons, byteLength_append, byteLength_newline_cons, ih, List.map_cons, List.sum_cons]
    omega

/-- Of two beginnings of a text, the one with fewer bytes is the shorter one. -/
theorem prefix_of_byteLength_le {s t u : Text} (hs : s <+: u) (ht : t <+: u)
    (hle : byteLength s ≤ byteLength t) : s <+: t := by
  rcases List.prefix_or_prefix_of_prefix hs ht with h | ⟨w, rfl⟩
  · exact h
  · cases w with
    | nil => rw [List.append_nil]
    | cons c w =>
      have := c.utf8Size_pos
      rw [byteLength_append, byteLength_cons] at hle
      omega

/-! ## Splitting and joining -/

theorem splitLines_newline_cons (s : Text) : splitLines ('\n' :: s) = [] :: splitLines s :=
  if_pos rfl

theorem splitLines_cons_of_ne {c : Char} {s line : Text} {lines : List Text} (hc : c ≠ '\n')
    (h : splitLines s = line :: lines) : splitLines (c :: s) = (c :: line) :: lines := by
  rw [splitLines, if_neg hc, h]

/-- An induction along a text with the lines of what is left: a newline begins a new line, and every
other character belongs to the first one. -/
theorem splitLines_induction {P : Text → List Text → Prop} (nil : P [] [[]])
    (newline : ∀ s, P s (splitLines s) → P ('\n' :: s) ([] :: splitLines s))
    (other : ∀ c s line lines, c ≠ '\n' → P s (line :: lines) → P (c :: s) ((c :: line) :: lines))
    (s : Text) : P s (splitLines s) := by
  induction s with
  | nil => exact nil
  | cons c s ih =>
    by_cases hc : c = '\n'
    · subst hc
      rw [splitLines_newline_cons]
      exact newline s ih
    · obtain ⟨line, lines, h⟩ := List.exists_cons_of_ne_nil (splitLines_ne_nil s)
      rw [splitLines_cons_of_ne hc h]
      rw [h] at ih
      exact other c s line lines hc ih

/-- No line has a newline in it. -/
theorem newline_notMem_of_mem_splitLines {s line : Text} (h : line ∈ splitLines s) :
    '\n' ∉ line := by
  suffices ∀ line ∈ splitLines s, '\n' ∉ line from this line h
  refine splitLines_induction (P := fun _ lines => ∀ line ∈ lines, '\n' ∉ line) ?_ ?_ ?_ s
  · simp
  · intro s ih
    exact List.forall_mem_cons.mpr ⟨List.not_mem_nil, ih⟩
  · intro c s line lines hc ih
    obtain ⟨hline, hlines⟩ := List.forall_mem_cons.mp ih
    exact List.forall_mem_cons.mpr ⟨List.not_mem_cons_of_ne_of_not_mem hc.symm hline, hlines⟩

theorem intercalate_cons_left (c : Char) (line : Text) (lines : List Text) :
    ['\n'].intercalate ((c :: line) :: lines) = c :: ['\n'].intercalate (line :: lines) := by
  cases lines with
  | nil => rw [List.intercalate_singleton, List.intercalate_singleton]
  | cons line' lines => rw [List.intercalate_cons_cons, List.intercalate_cons_cons]; rfl

/-- The lines of a text with newlines between them. -/
theorem intercalate_splitLines (s : Text) : ['\n'].intercalate (splitLines s) = s := by
  refine splitLines_induction (P := fun s lines => ['\n'].intercalate lines = s) ?_ ?_ ?_ s
  · rfl
  · intro s ih
    rw [List.intercalate_cons_of_ne_nil (splitLines_ne_nil s), ih]
    rfl
  · intro c s line lines _ ih
    rw [intercalate_cons_left, ih]

theorem intercalate_cons (line : Text) (lines : List Text) :
    ['\n'].intercalate (line :: lines) = line ++ lines.flatMap ('\n' :: ·) := by
  induction lines generalizing line with
  | nil => rw [List.intercalate_singleton, List.flatMap_nil, List.append_nil]
  | cons line' lines ih =>
    rw [List.intercalate_cons_cons, ih, List.append_assoc, List.flatMap_cons]
    rfl

/-- Of lines with newlines between them, those in front of one stand there with newlines behind. -/
theorem intercalate_append (before : List Text) (line : Text) (after : List Text) :
    ['\n'].intercalate (before ++ line :: after) =
      unlines before ++ (line ++ after.flatMap ('\n' :: ·)) := by
  induction before with
  | nil => exact intercalate_cons line after
  | cons first before ih =>
    rw [List.cons_append, List.intercalate_cons_of_ne_nil (by simp), ih, unlines_cons,
      List.append_assoc, List.append_assoc]
    rfl

/-- Nothing but whole lines is left of a text at the end of a line. -/
theorem takeWhile_flatMap_newline (lines : List Text) :
    (lines.flatMap ('\n' :: ·)).takeWhile (· != '\n') = [] := by
  cases lines with
  | nil => rfl
  | cons line lines => rfl

/-! ## The line of a byte -/

/-- A byte among lines with newlines between them, or the end of them, belongs to one of the
lines. -/
theorem exists_line_of_le {lines : List Text} (hne : lines ≠ []) {n : Nat}
    (hle : n ≤ byteLength (['\n'].intercalate lines)) :
    ∃ before line after, lines = before ++ line :: after ∧ byteLength (unlines before) ≤ n ∧
      n ≤ byteLength (unlines before) + byteLength line := by
  induction lines generalizing n with
  | nil => exact absurd rfl hne
  | cons line lines ih =>
    by_cases hfirst : n ≤ byteLength line
    · refine ⟨[], line, lines, rfl, Nat.zero_le _, ?_⟩
      rwa [unlines_nil, byteLength_nil, Nat.zero_add]
    · cases lines with
      | nil =>
        rw [List.intercalate_singleton] at hle
        exact absurd hle hfirst
      | cons line' lines =>
        rw [List.intercalate_cons_cons, List.append_assoc, List.singleton_append,
          byteLength_append, byteLength_newline_cons] at hle
        obtain ⟨before, found, after, heq, hstart, hend⟩ :=
          ih (List.cons_ne_nil _ _) (n := n - (byteLength line + 1)) (by omega)
        refine ⟨line :: before, found, after, by rw [heq, List.cons_append], ?_, ?_⟩
        all_goals
          rw [unlines_cons, byteLength_append, byteLength_newline_cons]
          omega

end TextParsing.Text
