import TextParsing.Proofs.Report.Position

/-!
# The lines that a report shows

The shown lines are the numbered lines of the source around the failing one (`shownLines`), each as
it is, and the pointer stands behind the failing line:

    showLines p n lines =
      ((lines.zipIdx n).filter inWindow).flatMap (showNumbered p)           (showLines_eq_flatMap)
    InLine source offset before line after →
      shownLines source (ofOffset source offset).line =                           (shownLines_eq)
        linesAbove before ++
          (line, (ofOffset source offset).line) :: linesBelow before.length after

Without their numbers they follow each other in the source, since the lines above are the last ones
in front of the failing line and those below are the first ones behind it.
-/

namespace TextParsing.Report

open Text Position

variable {source line : Text} {before after lines : List Text} {offset first n : Nat} {p : Position}

/-! ## Numbered lines -/

/-- A shown line that does not fail, with its number. -/
def plainText (l : Text × Nat) : Text :=
  "    ".toList ++ decimal l.2 ++ " | ".toList ++ l.1 ++ "\n".toList

/-- The failing line with its number. -/
def markedText (l : Text × Nat) : Text :=
  "  > ".toList ++ decimal l.2 ++ " | ".toList ++ l.1 ++ "\n".toList

/-- A pointer with `column` blanks in front of it. -/
def pointerLine (column : Nat) : Text := List.replicate column ' ' ++ "^--- here".toList

/-- The lines of the source with their numbers, from two lines above line `n` to two lines below
it. -/
def shownLines (source : Text) (n : Nat) : List (Text × Nat) :=
  ((splitLines source).zipIdx 1).filter fun l =>
    decide (max 1 (n - 2) ≤ l.2 ∧ l.2 ≤ min (n + 2) (splitLines source).length)

/-- Of numbered lines, the first ones have the small numbers. -/
theorem map_filter_zipIdx_le (lines : List Text) (n last : Nat) :
    (((lines.zipIdx n).filter fun l => decide (l.2 ≤ last)).map Prod.fst) =
      lines.take (last + 1 - n) := by
  induction lines generalizing n with
  | nil => rw [List.zipIdx_nil, List.filter_nil, List.map_nil, List.take_nil]
  | cons line lines ih =>
    rw [List.zipIdx_cons]
    by_cases hle : n ≤ last
    · rw [List.filter_cons_of_pos (by simpa using hle), List.map_cons, ih,
        List.take_cons (by omega), Nat.sub_sub]
    · rw [List.filter_cons_of_neg (by simpa using hle), ih, Nat.sub_eq_zero_of_le (by omega),
        Nat.sub_eq_zero_of_le (by omega), List.take_zero, List.take_zero]

/-- Of numbered lines, the last ones have the large numbers. -/
theorem map_filter_zipIdx_ge (lines : List Text) (n first : Nat) :
    (((lines.zipIdx n).filter fun l => decide (first ≤ l.2)).map Prod.fst) =
      lines.drop (first - n) := by
  induction lines generalizing n with
  | nil => rw [List.zipIdx_nil, List.filter_nil, List.map_nil, List.drop_nil]
  | cons line lines ih =>
    rw [List.zipIdx_cons]
    by_cases hle : first ≤ n
    · rw [List.filter_cons_of_pos (by simpa using hle), List.map_cons, ih,
        Nat.sub_eq_zero_of_le hle, Nat.sub_eq_zero_of_le (by omega), List.drop_zero, List.drop_zero]
    · have hnext : first - n = first - (n + 1) + 1 := by omega
      rw [List.filter_cons_of_neg (by simpa using hle), ih, hnext, List.drop_succ_cons]

/-! ## The window -/

/-- The shown lines among those in front of the failing one. -/
def linesAbove (before : List Text) : List (Text × Nat) :=
  (before.zipIdx 1).filter fun l => decide (before.length - 1 ≤ l.2)

/-- The shown lines among those behind the failing one, which has `n` lines in front of it. -/
def linesBelow (n : Nat) (after : List Text) : List (Text × Nat) :=
  (after.zipIdx (n + 2)).filter fun l => decide (l.2 ≤ n + 3)

theorem lt_of_mem_linesAbove {l : Text × Nat} (h : l ∈ linesAbove before) :
    l.2 < before.length + 1 := by
  have := List.mem_zipIdx (List.mem_filter.mp h).1
  omega

theorem lt_of_mem_linesBelow {l : Text × Nat} (h : l ∈ linesBelow n after) : n + 1 < l.2 := by
  have := List.mem_zipIdx (List.mem_filter.mp h).1
  omega

/-- The numbers of the lines of a source are bounded anyway. -/
theorem shownLines_eq_filter (source : Text) (n : Nat) :
    shownLines source n =
      ((splitLines source).zipIdx 1).filter fun l => decide (n - 2 ≤ l.2 ∧ l.2 ≤ n + 2) := by
  refine List.filter_congr fun l hl => decide_eq_decide.mpr ?_
  have := List.mem_zipIdx hl
  omega

/-- The shown lines around the line of an offset. -/
theorem shownLines_eq (h : InLine source offset before line after) :
    shownLines source (ofOffset source offset).line =
      linesAbove before ++
        (line, (ofOffset source offset).line) :: linesBelow before.length after := by
  have hzip : (splitLines source).zipIdx 1 =
      before.zipIdx 1 ++ (line, before.length + 1) :: after.zipIdx (before.length + 2) := by
    rw [h.lines_eq, List.zipIdx_append, List.zipIdx_cons, Nat.add_comm 1]
  have habove : (before.zipIdx 1).filter (fun l => decide
      (before.length + 1 - 2 ≤ l.2 ∧ l.2 ≤ before.length + 1 + 2)) = linesAbove before := by
    refine List.filter_congr fun l hl => decide_eq_decide.mpr ?_
    have := List.mem_zipIdx hl
    omega
  have hbelow : (after.zipIdx (before.length + 2)).filter (fun l => decide
      (before.length + 1 - 2 ≤ l.2 ∧ l.2 ≤ before.length + 1 + 2)) =
        linesBelow before.length after := by
    refine List.filter_congr fun l hl => decide_eq_decide.mpr ?_
    have := List.mem_zipIdx hl
    omega
  rw [shownLines_eq_filter, h.line_ofOffset, hzip, List.filter_append, List.filter_cons_of_pos,
    habove, hbelow]
  rw [decide_eq_true_eq]
  dsimp only
  omega

/-- The shown lines are a part of all lines. -/
theorem exists_around_shown (before after : List Text) :
    ∃ skipped beyond, before = skipped ++ (linesAbove before).map Prod.fst ∧
      after = (linesBelow before.length after).map Prod.fst ++ beyond := by
  unfold linesAbove linesBelow
  rw [map_filter_zipIdx_ge, map_filter_zipIdx_le]
  exact ⟨_, _, (List.take_append_drop _ _).symm, (List.take_append_drop _ _).symm⟩

/-! ## Showing the window -/

/-- The shown form of a numbered line. -/
def showNumbered (p : Position) (l : Text × Nat) : List Text :=
  if l.2 = p.line then [margin true l.2 ++ l.1, pointer (margin true l.2) p.byteOffset]
  else [margin false l.2 ++ l.1]

theorem showLines_eq_flatMap (p : Position) (n : Nat) (lines : List Text) :
    showLines p n lines =
      ((lines.zipIdx n).filter fun l => decide (p.line - 2 ≤ l.2 ∧ l.2 ≤ p.line + 2)).flatMap
        (showNumbered p) := by
  induction lines generalizing n with
  | nil => rfl
  | cons content lines ih =>
    rw [showLines, List.zipIdx_cons, ih, showLine, contextRadius]
    by_cases h : n < p.line - 2 ∨ p.line + 2 < n
    · rw [if_pos h, List.filter_cons_of_neg (by simpa using by omega)]
      rfl
    · rw [if_neg h, List.filter_cons_of_pos (by simpa using by omega), List.flatMap_cons]
      rfl

/-- A report has its first line, an empty line, and then the shown lines; the failing one has the
pointer behind it. -/
theorem lines_eq (r : Report) (h : InLine r.source r.offset before line after) :
    r.lines = r.header :: [] :: ((linesAbove before).map (fun l => margin false l.2 ++ l.1) ++
      (margin true r.position.line ++ line) ::
        pointer (margin true r.position.line) r.position.byteOffset ::
          (linesBelow before.length after).map fun l => margin false l.2 ++ l.1) := by
  have hline : r.position.line = before.length + 1 := h.line_ofOffset
  have hothers (ls : List (Text × Nat)) (hne : ∀ l ∈ ls, l.2 ≠ r.position.line) :
      ls.flatMap (showNumbered r.position) = ls.map fun l => margin false l.2 ++ l.1 := by
    rw [List.map_eq_flatMap]
    exact List.flatMap_congr fun l hl => if_neg (hne l hl)
  have hshown : showLines r.position 1 (splitLines r.source) =
      (linesAbove before ++ (line, r.position.line) :: linesBelow before.length after).flatMap
        (showNumbered r.position) := by
    rw [showLines_eq_flatMap, ← shownLines_eq_filter]
    exact congrArg _ (shownLines_eq h)
  rw [Report.lines, hshown, List.flatMap_append, List.flatMap_cons, hothers, hothers, showNumbered,
    if_pos rfl]
  · rfl
  · intro l hl
    have := lt_of_mem_linesBelow hl
    omega
  · intro l hl
    have := lt_of_mem_linesAbove hl
    omega

theorem unlines_map_margin (ls : List (Text × Nat)) :
    unlines (ls.map fun l => margin false l.2 ++ l.1) = ls.flatMap plainText := by
  unfold unlines
  rw [List.flatMap_map]
  rfl

/-- The text of a report: its first line, an empty line, and the shown lines, with the pointer
behind the failing one. -/
theorem render_eq (r : Report) (h : InLine r.source r.offset before line after) :
    r.render = "Parse error at line ".toList ++ decimal r.position.line ++
      ", byte offset ".toList ++ decimal r.position.byteOffset ++ ": ".toList ++ r.message ++ "\n\n".toList ++
      (linesAbove before).flatMap plainText ++ markedText (line, r.position.line) ++
      pointerLine (byteLength (margin true r.position.line) + r.position.byteOffset) ++
      "\n".toList ++ (linesBelow before.length after).flatMap plainText := by
  have hmarked : markedText (line, r.position.line) =
      margin true r.position.line ++ line ++ ['\n'] := rfl
  have hpointer (lead : Text) (column : Nat) :
      pointerLine (byteLength lead + column) = pointer lead column := rfl
  have hempty : "\n\n".toList = ['\n', '\n'] := rfl
  have hnewline : "\n".toList = ['\n'] := rfl
  show unlines r.lines = _
  rw [lines_eq r h, hmarked, hpointer, hempty, hnewline]
  unfold header
  simp only [unlines_cons, unlines_append, unlines_map_margin, List.append_assoc, List.cons_append,
    List.nil_append]

/-- The shown lines with newlines between them are a piece of the source, and the offset lies in
it. -/
theorem shown_piece (h : InLine source offset before line after) :
    ∃ lead trail, source = lead ++ ['\n'].intercalate
        ((shownLines source (ofOffset source offset).line).map Prod.fst) ++ trail ∧
      byteLength lead ≤ offset ∧ offset ≤ byteLength lead + byteLength (['\n'].intercalate
        ((shownLines source (ofOffset source offset).line).map Prod.fst)) := by
  obtain ⟨skipped, beyond, hbefore, hafter⟩ := exists_around_shown before after
  have hpiece : ['\n'].intercalate
        ((shownLines source (ofOffset source offset).line).map Prod.fst) =
      unlines ((linesAbove before).map Prod.fst) ++ (line ++
        ((linesBelow before.length after).map Prod.fst).flatMap ('\n' :: ·)) := by
    rw [shownLines_eq h, List.map_append, List.map_cons, intercalate_append]
  have hsource : source = unlines skipped ++ (unlines ((linesAbove before).map Prod.fst) ++ (line ++
      ((linesBelow before.length after).map Prod.fst).flatMap ('\n' :: ·))) ++
        beyond.flatMap ('\n' :: ·) := by
    conv => lhs; rw [h.source_eq, hbefore, hafter]
    simp only [unlines_append, List.flatMap_append, List.append_assoc]
  have hlead : byteLength (unlines before) =
      byteLength (unlines skipped) + byteLength (unlines ((linesAbove before).map Prod.fst)) := by
    conv => lhs; rw [hbefore]
    rw [unlines_append, byteLength_append]
  have hstart := h.start_le
  have hend := h.le_end
  rw [hpiece]
  refine ⟨_, _, hsource, by omega, ?_⟩
  rw [byteLength_append, byteLength_append]
  omega

/-- Behind the position of an error that leaves a suffix of the source, the failing line goes on as
the suffix begins. -/
theorem fromByte?_of_suffix {e : ParseError} (hsuffix : e.rest <:+ source)
    (h : InLine source (e.offsetIn source) before line after) :
    fromByte? (e.report source).position.byteOffset line =
      some (e.rest.takeWhile (· != '\n')) := by
  obtain ⟨seen, hline, -, hbyte⟩ := h.split_of_suffix hsuffix
  rw [hbyte, hline]
  exact fromByte?_byteLength seen _

/-- The text of a report has the line and the byte of its position and the message, an empty line,
and then the lines of the source around the failing one, in order and with their numbers.  Only the
failing line is marked, and the pointer is behind it.  The shown lines are a piece of the source in
which the offset lies.  If the error leaves a suffix of the source, then the failing line goes on,
from the byte of the position, with the first line of this suffix. -/
theorem render_shows_window (e : ParseError) (source : Text) :
    ∃ above line below,
      shownLines source (e.report source).position.line =
        above ++ (line, (e.report source).position.line) :: below ∧
      (∀ l ∈ above, l.2 < (e.report source).position.line) ∧
      (∀ l ∈ below, (e.report source).position.line < l.2) ∧
      (e.report source).render =
        "Parse error at line ".toList ++ decimal (e.report source).position.line ++
          ", byte offset ".toList ++ decimal (e.report source).position.byteOffset ++
          ": ".toList ++ e.message ++ "\n\n".toList ++ above.flatMap plainText ++
          markedText (line, (e.report source).position.line) ++
          pointerLine (byteLength (margin true (e.report source).position.line) +
            (e.report source).position.byteOffset) ++ "\n".toList ++ below.flatMap plainText ∧
      (∃ lead trail, source = lead ++ ['\n'].intercalate
          ((shownLines source (e.report source).position.line).map Prod.fst) ++ trail ∧
        byteLength lead ≤ e.offsetIn source ∧
        e.offsetIn source ≤ byteLength lead + byteLength (['\n'].intercalate
          ((shownLines source (e.report source).position.line).map Prod.fst))) ∧
      (e.rest <:+ source → fromByte? (e.report source).position.byteOffset line =
        some (e.rest.takeWhile (· != '\n'))) := by
  obtain ⟨before, line, after, h⟩ := exists_inLine (e.offsetIn_le source)
  have hline : (e.report source).position.line = before.length + 1 := h.line_ofOffset
  refine ⟨linesAbove before, line, linesBelow before.length after, shownLines_eq h, ?_, ?_,
    render_eq (e.report source) h, shown_piece h, ?_⟩
  · intro l hl
    rw [hline]
    exact lt_of_mem_linesAbove hl
  · intro l hl
    rw [hline]
    exact lt_of_mem_linesBelow hl
  · intro hsuffix
    exact fromByte?_of_suffix hsuffix h

/-- A failure at the end of the third line of six: behind its first byte this line goes on as what
is left does. -/
theorem render_shows_window_third : ∃ line,
    markedText (line, 3) <:+:
      (ParseError.report ⟨.noAlternative, "é\nd\ne\nf".toList⟩ "a\nb\ncé\nd\ne\nf".toList).render ∧
    fromByte? 1 line = some "é".toList := by
  obtain ⟨above, line, below, -, -, -, hrender, -, hrest⟩ :=
    render_shows_window ⟨.noAlternative, "é\nd\ne\nf".toList⟩ "a\nb\ncé\nd\ne\nf".toList
  have hposition : (ParseError.report ⟨.noAlternative, "é\nd\ne\nf".toList⟩
      "a\nb\ncé\nd\ne\nf".toList).position = ⟨3, 1⟩ := by decide
  have hsuffix : "é\nd\ne\nf".toList <:+ "a\nb\ncé\nd\ne\nf".toList := ⟨"a\nb\nc".toList, rfl⟩
  rw [hposition] at hrender hrest
  refine ⟨line, ?_, hrest hsuffix⟩
  rw [hrender, List.append_assoc, List.append_assoc]
  exact List.infix_append _ _ _

end TextParsing.Report
