import Mathlib.Data.List.Basic
import TextParsing.Proofs.Report.Window

/-!
# Where the pointer of a report stands

The pointer has as many characters in front of it as the failing line, with its margin, has bytes in
front of what is left to read.  A character that is not in ASCII has more than one byte:

    byteLength s = s.length ↔ ∀ c ∈ s, c.toNat < 128                    (byteLength_eq_length_iff)

Hence the pointer stands too far to the right behind such a character (`pointer_stands`).
-/

namespace TextParsing

namespace Text

theorem length_le_byteLength (s : Text) : s.length ≤ byteLength s := by
  induction s with
  | nil => exact Nat.le_refl _
  | cons c s ih =>
    have := c.utf8Size_pos
    rw [List.length_cons, byteLength_cons]
    omega

theorem utf8Size_eq_one_iff {c : Char} : c.utf8Size = 1 ↔ c.toNat < 128 := by
  rw [Char.utf8Size_eq_one_iff, UInt32.le_iff_toNat_le]
  exact Nat.lt_succ_iff.symm

/-- A text has as many bytes as characters if all of them are in ASCII. -/
theorem byteLength_eq_length_iff {s : Text} :
    byteLength s = s.length ↔ ∀ c ∈ s, c.toNat < 128 := by
  induction s with
  | nil => simp
  | cons c s ih =>
    have hpos := c.utf8Size_pos
    have hle := length_le_byteLength s
    rw [List.forall_mem_cons, ← ih, ← utf8Size_eq_one_iff, byteLength_cons, List.length_cons]
    omega

theorem lt_of_all {s : Text} (h : (s.all fun c => decide (c.toNat < 128)) = true) :
    ∀ c ∈ s, c.toNat < 128 :=
  fun c hc => of_decide_eq_true (List.all_eq_true.mp h c hc)

theorem lt_of_isDigit {c : Char} (h : c.isDigit = true) : c.toNat < 128 := by
  have hle := (Bool.and_eq_true_iff.mp h).2
  have := UInt32.le_iff_toNat_le.mp (of_decide_eq_true hle)
  exact Nat.lt_of_le_of_lt this (by decide)

end Text

namespace Report

open Text Position

variable {source line unread : Text} {before after : List Text} {offset : Nat}

/-- The margin of a line is in ASCII. -/
theorem byteLength_margin (marked : Bool) (n : Nat) :
    byteLength (margin marked n) = (margin marked n).length := by
  have hmark : ∀ c ∈ (if marked then "  > ".toList else "    ".toList), c.toNat < 128 := by
    cases marked
    · exact lt_of_all (by decide)
    · exact lt_of_all (by decide)
  have hbar : ∀ c ∈ " | ".toList, c.toNat < 128 := lt_of_all (by decide)
  refine byteLength_eq_length_iff.mpr fun c hc => ?_
  rw [margin, List.append_assoc, List.mem_append, List.mem_append] at hc
  rcases hc with hc | hc | hc
  · exact hmark c hc
  · exact lt_of_isDigit (Nat.isDigit_of_mem_toDigits (by decide) (by decide) hc)
  · exact hbar c hc

/-! ## There is one pointer -/

/-- The first character of a line that is not a blank. -/
def firstInk (s : Text) : Option Char := (s.dropWhile (· == ' ')).head?

theorem firstInk_append {blanks s : Text} (h : ∀ c ∈ blanks, (c == ' ') = true) :
    firstInk (blanks ++ s) = firstInk s := by
  rw [firstInk, List.dropWhile_append_of_pos h]
  rfl

theorem firstInk_pointerLine (column : Nat) : firstInk (pointerLine column) = some '^' := by
  refine (firstInk_append fun c hc => ?_).trans rfl
  exact beq_iff_eq.mpr (List.eq_of_mem_replicate hc)

theorem firstInk_margin_false (n : Nat) (s : Text) :
    firstInk (margin false n ++ s) ≠ some '^' := by
  have hblanks : ∀ c ∈ "    ".toList, (c == ' ') = true := List.all_eq_true.mp (by decide)
  obtain ⟨d, ds, hd⟩ := List.exists_cons_of_ne_nil
    (List.length_pos_iff.mp (Nat.length_toDigits_pos (b := 10) (n := n)))
  have hdigit : d.isDigit = true :=
    Nat.isDigit_of_mem_toDigits (by decide) (by decide) (hd ▸ List.mem_cons_self)
  have hmargin : margin false n ++ s = "    ".toList ++ d :: (ds ++ " | ".toList ++ s) := by
    rw [margin, decimal, hd]
    simp
  have hblank : (d == ' ') = false := by
    refine beq_eq_false_iff_ne.mpr fun heq => ?_
    rw [heq] at hdigit
    exact absurd hdigit (by decide)
  rw [hmargin, firstInk_append hblanks, firstInk, List.dropWhile_cons_of_neg (by simp [hblank])]
  intro heq
  rw [Option.some.inj heq] at hdigit
  exact absurd hdigit (by decide)

theorem firstInk_margin_true (n : Nat) (s : Text) : firstInk (margin true n ++ s) ≠ some '^' := by
  have hmargin : firstInk (margin true n ++ s) = some '>' := rfl
  rw [hmargin]
  decide

theorem firstInk_header (r : Report) : firstInk r.header ≠ some '^' := by
  have hheader : firstInk r.header = some 'P' := rfl
  rw [hheader]
  decide

theorem pointerLine_injective {column column' : Nat}
    (h : pointerLine column = pointerLine column') : column = column' := by
  have := congrArg List.length h
  simpa [pointerLine] using this

/-- Among the lines of a report there is one with a pointer, the one behind the failing line. -/
theorem eq_of_pointerLine {above below : List Text} {marked : Text} {column : Nat} (r : Report)
    (h : InLine r.source r.offset before line after)
    (hlines : r.lines = above ++ marked :: pointerLine column :: below) :
    marked = margin true r.position.line ++ line ∧
      column = byteLength (margin true r.position.line) + r.position.byteOffset := by
  have hnot (ls : List Text) (hink : ∀ l ∈ ls, firstInk l ≠ some '^') : pointerLine column ∉ ls :=
    fun hmem => hink _ hmem (firstInk_pointerLine column)
  have hplain (ls : List (Text × Nat)) :
      ∀ l ∈ ls.map (fun l => margin false l.2 ++ l.1), firstInk l ≠ some '^' := by
    intro l hl
    obtain ⟨l, -, rfl⟩ := List.mem_map.mp hl
    exact firstInk_margin_false l.2 l.1
  have hfront : ∀ l ∈
      (r.header :: [] :: (linesAbove before).map fun l => margin false l.2 ++ l.1) ++
        [margin true r.position.line ++ line], firstInk l ≠ some '^' := by
    rw [List.forall_mem_append, List.forall_mem_cons, List.forall_mem_cons,
      List.forall_mem_singleton]
    exact ⟨⟨firstInk_header r, by decide, hplain _⟩, firstInk_margin_true _ _⟩
  have hsplit : ((r.header :: [] :: (linesAbove before).map fun l => margin false l.2 ++ l.1) ++
      [margin true r.position.line ++ line]) ++
        pointerLine (byteLength (margin true r.position.line) + r.position.byteOffset) ::
          ((linesBelow before.length after).map fun l => margin false l.2 ++ l.1) =
      (above ++ [marked]) ++ pointerLine column :: below := by
    rw [List.append_assoc, List.append_assoc, List.singleton_append, List.singleton_append,
      ← hlines, lines_eq r h]
    rfl
  obtain ⟨hbefore, hpointer, -⟩ := (List.append_cons_inj_of_notMem (hnot _ hfront)
    (hnot _ (hplain _))).mp hsplit
  have hmarked := (List.append_inj' hbefore rfl).2
  exact ⟨(List.singleton_inj.mp hmarked).symm, (pointerLine_injective hpointer).symm⟩

/-! ## Where it stands -/

/-- In the lines of a report, the pointer stands under the beginning of the text `unread`, with
which the line above ends. -/
def PointsAt (r : Report) (unread : Text) : Prop :=
  ∃ above front below, r.lines = above ++ (front ++ unread) :: pointerLine front.length :: below

/-- The pointer has as many characters in front of it as the failing line has bytes in front of the
failing one. -/
theorem exists_pointer {seen : Text} {r : Report}
    (h : InLine r.source r.offset before (seen ++ unread) after)
    (hbyte : r.position.byteOffset = byteLength seen) :
    ∃ above below, r.lines = above ++ (margin true r.position.line ++ seen ++ unread) ::
      pointerLine
        ((margin true r.position.line ++ seen).length + (byteLength seen - seen.length)) ::
          below := by
  have hcolumn : (margin true r.position.line ++ seen).length + (byteLength seen - seen.length) =
      byteLength (margin true r.position.line) + r.position.byteOffset := by
    have := length_le_byteLength seen
    rw [List.length_append, byteLength_margin, hbyte]
    omega
  rw [hcolumn, lines_eq r h, List.append_assoc]
  exact ⟨r.header :: [] :: (linesAbove before).map _, _, rfl⟩

/-- The pointer stands under the failing character if what has been read of the line is in ASCII. -/
theorem pointsAt_iff {seen : Text} {r : Report}
    (h : InLine r.source r.offset before (seen ++ unread) after)
    (hbyte : r.position.byteOffset = byteLength seen) :
    r.PointsAt unread ↔ ∀ c ∈ seen, c.toNat < 128 := by
  rw [← byteLength_eq_length_iff]
  constructor
  · rintro ⟨above, front, below, hlines⟩
    obtain ⟨hmarked, hcolumn⟩ := eq_of_pointerLine r h hlines
    rw [← List.append_assoc] at hmarked
    rw [List.append_cancel_right hmarked, List.length_append, byteLength_margin, hbyte] at hcolumn
    exact (Nat.add_left_cancel hcolumn).symm
  · intro hascii
    obtain ⟨above, below, hlines⟩ := exists_pointer h hbyte
    rw [hascii, Nat.sub_self, Nat.add_zero] at hlines
    exact ⟨above, _, below, hlines⟩

/-- For an error that leaves a suffix of the source, the failing line consists of a part that has
been read (`seen`) and the first line of the suffix.  The pointer has as many characters in front of
it as the margin and `seen` have bytes.  It stands under the beginning of what is left if `seen` is
in ASCII, and too far to the right otherwise. -/
theorem pointer_stands {e : ParseError} {source : Text} (hsuffix : e.rest <:+ source) :
    ∃ lead seen front, source = lead ++ seen ++ e.rest ∧
      (lead = [] ∨ lead.getLast? = some '\n') ∧ '\n' ∉ seen ∧
      front = "  > ".toList ++ decimal (e.report source).position.line ++ " | ".toList ++ seen ∧
      (∃ above below, (e.report source).lines =
        above ++ (front ++ e.rest.takeWhile (· != '\n')) ::
          pointerLine (front.length + (byteLength seen - seen.length)) :: below) ∧
      ((e.report source).PointsAt (e.rest.takeWhile (· != '\n')) ↔ ∀ c ∈ seen, c.toNat < 128) := by
  obtain ⟨before, line, after, h⟩ := exists_inLine (e.offsetIn_le source)
  obtain ⟨seen, rfl, hsource, hbyte⟩ := h.split_of_suffix hsuffix
  have hseen : '\n' ∉ seen := fun hmem => h.newline_notMem (List.mem_append_left _ hmem)
  exact ⟨unlines before, seen, _, hsource, unlines_eq_nil_or before, hseen, rfl,
    exists_pointer h hbyte, pointsAt_iff h hbyte⟩

example : (ParseError.report ⟨.noAlternative, "x".toList⟩ "éx".toList).lines =
    ["Parse error at line 1, byte offset 2: no alt match".toList, [], "  > 1 | éx".toList,
      "          ^--- here".toList] := by
  decide

/-- On a line in ASCII the pointer stands under the failing character, whatever other lines hold. -/
theorem pointer_stands_second_line :
    (ParseError.report ⟨.noAlternative, "d\né".toList⟩ "ab\ncd\né".toList).PointsAt "d".toList := by
  have hsuffix : "d\né".toList <:+ "ab\ncd\né".toList := ⟨"ab\nc".toList, rfl⟩
  obtain ⟨lead, seen, -, hsource, -, -, -, -, hiff⟩ :=
    pointer_stands (e := ⟨.noAlternative, "d\né".toList⟩) hsuffix
  refine hiff.mpr fun c hc => ?_
  have hlead : lead ++ seen = "ab\nc".toList :=
    List.append_cancel_right (hsource.symm.trans (rfl : _ = "ab\nc".toList ++ "d\né".toList))
  have hascii : ∀ c ∈ "ab\nc".toList, c.toNat < 128 := lt_of_all (by decide)
  exact hascii c (hlead ▸ List.mem_append_right lead hc)

/-- In the report of a failure at the `x` of `éx`, the pointer stands one place to the right of
the `x`. -/
theorem not_pointsAt_behind_accent : "x".toList <:+ "éx".toList ∧
    ¬ (ParseError.report ⟨.noAlternative, "x".toList⟩ "éx".toList).PointsAt "x".toList := by
  refine ⟨⟨"é".toList, rfl⟩, fun hpoints => ?_⟩
  have h : InLine "éx".toList 2 [] ("é".toList ++ "x".toList) [] :=
    ⟨by decide, by decide, by decide⟩
  have hascii := (pointsAt_iff (r := ⟨_, "éx".toList, 2⟩) h (by decide)).mp hpoints
  exact absurd (hascii 'é' List.mem_cons_self) (by decide)

end Report

end TextParsing
