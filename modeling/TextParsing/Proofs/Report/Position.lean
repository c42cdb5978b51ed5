import TextParsing.Proofs.Text.Encoding
import TextParsing.Proofs.Text.Lines
import TextParsing.Report

/-!
# Positions of bytes

A byte of a source, or its end, belongs to one of the lines (`InLine`), and its position is the
number of this line with the bytes between the start of the line and the byte:

    InLine source offset before line after →
      ofOffset source offset = ⟨before.length + 1, offset - byteLength (unlines before)⟩
                                                                              (InLine.ofOffset_eq)

The walk along the characters is one along the bytes, `byteWalk?`, which gives no position where the
start of the line would lie beyond the offset.  This never happens, and the walk reads only the bytes
before the offset:

    byteWalk? offset 1 0 0 (bytes source) = some (ofOffset source offset)         (byteWalk?_bytes)

Together they show that a position stands for one offset, and that the order of positions is that of
the offsets.
-/

namespace TextParsing

open Text

namespace Position

variable {source s l : Text} {lines before after : List Text} {offset offset' n start here : Nat}
  {bs us : List UInt8} {p : Position}

/-- Whether a position comes before another one: on an earlier line, or earlier on the same line. -/
def Before (p q : Position) : Prop :=
  p.line < q.line ∨ p.line = q.line ∧ p.byteOffset < q.byteOffset

/-! ## The walk line by line -/

theorem walk_of_le (h : offset ≤ here) : walk offset n start here s = ⟨n, offset - start⟩ := by
  cases s with
  | nil => rfl
  | cons c s => exact if_pos h

theorem walk_newline (h : here < offset) :
    walk offset n start here ('\n' :: s) = walk offset (n + 1) (here + 1) (here + 1) s := by
  rw [walk, if_neg (Nat.not_le.mpr h), if_pos rfl]

/-- The walk passes over a text without newlines, or ends in it, but stays on its line. -/
theorem walk_append (h : '\n' ∉ l) :
    walk offset n start here (l ++ s) = walk offset n start (here + byteLength l) s := by
  induction l generalizing here with
  | nil => rfl
  | cons c l ih =>
    by_cases hle : offset ≤ here
    · rw [walk_of_le hle, walk_of_le (Nat.le_trans hle (Nat.le_add_right _ _))]
    · have hc : c ≠ '\n' := (List.ne_of_not_mem_cons h).symm
      rw [List.cons_append, walk, if_neg hle, if_neg hc, ih (List.not_mem_of_not_mem_cons h),
        Nat.add_assoc, byteLength_cons]

/-- The walk passes over the lines that end before the offset. -/
theorem walk_unlines (hlines : ∀ l ∈ lines, '\n' ∉ l)
    (hle : start + byteLength (unlines lines) ≤ offset) :
    walk offset n start start (unlines lines ++ s) =
      walk offset (n + lines.length) (start + byteLength (unlines lines))
        (start + byteLength (unlines lines)) s := by
  induction lines generalizing n start with
  | nil => rfl
  | cons l lines ih =>
    obtain ⟨hl, hlines⟩ := List.forall_mem_cons.mp hlines
    have hsum : start + byteLength (unlines (l :: lines)) =
        start + byteLength l + 1 + byteLength (unlines lines) := by
      rw [unlines_cons, byteLength_append, byteLength_newline_cons]
      omega
    rw [hsum] at hle ⊢
    rw [unlines_cons, List.append_assoc, walk_append hl, List.cons_append,
      walk_newline (by omega), ih hlines hle, List.length_cons]
    congr 1
    omega

/-- A byte of the source, or the end of it, belongs to a line; the newline behind a line counts as a
byte of the line. -/
structure InLine (source : Text) (offset : Nat) (before : List Text) (line : Text)
    (after : List Text) : Prop where
  lines_eq : splitLines source = before ++ line :: after
  start_le : byteLength (unlines before) ≤ offset
  le_end : offset ≤ byteLength (unlines before) + byteLength line

theorem exists_inLine (hle : offset ≤ byteLength source) :
    ∃ before line after, InLine source offset before line after := by
  rw [← intercalate_splitLines source] at hle
  obtain ⟨before, line, after, heq, hstart, hend⟩ :=
    exists_line_of_le (splitLines_ne_nil source) hle
  exact ⟨before, line, after, heq, hstart, hend⟩

/-- The source around a line. -/
theorem InLine.source_eq (h : InLine source offset before l after) :
    source = unlines before ++ (l ++ after.flatMap ('\n' :: ·)) := by
  rw [← intercalate_append, ← h.lines_eq, intercalate_splitLines]

theorem InLine.newline_notMem (h : InLine source offset before l after) : '\n' ∉ l := by
  refine newline_notMem_of_mem_splitLines (s := source) ?_
  rw [h.lines_eq]
  exact List.mem_append_right before List.mem_cons_self

/-- Where the source is cut at the offset, the line is cut into a part that ends the lead and a part
that begins the rest. -/
theorem InLine.split_of_append {lead rest : Text}
    (h : InLine (lead ++ rest) (byteLength lead) before l after) :
    ∃ seen unseen, l = seen ++ unseen ∧ lead = unlines before ++ seen ∧
      rest = unseen ++ after.flatMap ('\n' :: ·) := by
  have hlines : unlines before <+: lead ++ rest := ⟨_, h.source_eq.symm⟩
  obtain ⟨seen, rfl⟩ := prefix_of_byteLength_le hlines (List.prefix_append _ _) h.start_le
  have hsource : seen ++ rest = l ++ after.flatMap ('\n' :: ·) := by
    have := h.source_eq
    rw [List.append_assoc] at this
    exact List.append_cancel_left this
  have hend : byteLength seen ≤ byteLength l := by
    have := h.le_end
    rw [byteLength_append] at this
    omega
  obtain ⟨unseen, rfl⟩ := prefix_of_byteLength_le (List.prefix_append seen rest)
    (hsource ▸ List.prefix_append l _) hend
  rw [List.append_assoc] at hsource
  exact ⟨seen, unseen, rfl, rfl, List.append_cancel_left hsource⟩

theorem InLine.ofOffset_eq (h : InLine source offset before l after) :
    ofOffset source offset = ⟨before.length + 1, offset - byteLength (unlines before)⟩ := by
  have hbefore : ∀ l ∈ before, '\n' ∉ l := by
    intro l hl
    refine newline_notMem_of_mem_splitLines (s := source) ?_
    rw [h.lines_eq]
    exact List.mem_append_left _ hl
  have hstart : 0 + byteLength (unlines before) ≤ offset := by
    rw [Nat.zero_add]
    exact h.start_le
  rw [ofOffset, h.source_eq, walk_unlines hbefore hstart, walk_append h.newline_notMem,
    walk_of_le (by rw [Nat.zero_add]; exact h.le_end), Nat.zero_add, Nat.add_comm 1]

theorem InLine.line_ofOffset (h : InLine source offset before l after) :
    (ofOffset source offset).line = before.length + 1 :=
  congrArg Position.line h.ofOffset_eq

theorem InLine.byteOffset_ofOffset (h : InLine source offset before l after) :
    (ofOffset source offset).byteOffset = offset - byteLength (unlines before) :=
  congrArg Position.byteOffset h.ofOffset_eq

/-! ## The walk byte by byte -/

/-- The place of an offset on a line; there is none if the line begins beyond the offset. -/
def onLine? (offset n start : Nat) : Option Position :=
  if start ≤ offset then some ⟨n, offset - start⟩ else none

/-- The walk along the bytes of a source: the next byte is byte `here`, on line `n`, which starts at
byte `start`. -/
def byteWalk? (offset n start here : Nat) : List UInt8 → Option Position
  | [] => onLine? offset n start
  | b :: bs =>
    if offset ≤ here then onLine? offset n start
    else if b = newlineByte then byteWalk? offset (n + 1) (here + 1) (here + 1) bs
    else byteWalk? offset n start (here + 1) bs

theorem byteWalk?_of_le (h : offset ≤ here) :
    byteWalk? offset n start here bs = onLine? offset n start := by
  cases bs with
  | nil => rfl
  | cons b bs => exact if_pos h

theorem byteWalk?_append (h : newlineByte ∉ us) :
    byteWalk? offset n start here (us ++ bs) = byteWalk? offset n start (here + us.length) bs := by
  induction us generalizing here with
  | nil => rfl
  | cons u us ih =>
    by_cases hle : offset ≤ here
    · rw [byteWalk?_of_le hle, byteWalk?_of_le (Nat.le_trans hle (Nat.le_add_right _ _))]
    · have hu : u ≠ newlineByte := (List.ne_of_not_mem_cons h).symm
      rw [List.cons_append, byteWalk?, if_neg hle, if_neg hu, ih (List.not_mem_of_not_mem_cons h),
        List.length_cons, Nat.add_assoc, Nat.add_comm 1]

/-- Walking along the bytes is walking along the characters, and the start of the line stays at or
below the offset. -/
theorem byteWalk?_eq_walk (h : start ≤ offset) :
    byteWalk? offset n start here (bytes s) = some (walk offset n start here s) := by
  induction s generalizing n start here with
  | nil => exact if_pos h
  | cons c s ih =>
    by_cases hle : offset ≤ here
    · rw [byteWalk?_of_le hle, walk_of_le hle]
      exact if_pos h
    · by_cases hc : c = '\n'
      · subst hc
        rw [bytes_newline, byteWalk?, if_neg hle, if_pos rfl, walk_newline (Nat.not_le.mp hle)]
        exact ih (Nat.not_le.mp hle)
      · rw [bytes_cons, byteWalk?_append (newlineByte_notMem hc), String.length_utf8EncodeChar,
          ih h, walk, if_neg hle, if_neg hc]

theorem byteWalk?_bytes (source : Text) (offset : Nat) :
    byteWalk? offset 1 0 0 (bytes source) = some (ofOffset source offset) :=
  byteWalk?_eq_walk (Nat.zero_le offset)

/-- The walk reads the bytes up to the offset. -/
theorem byteWalk?_take (here : Nat) :
    byteWalk? offset n start here (bs.take (offset - here)) = byteWalk? offset n start here bs := by
  induction bs generalizing n start here with
  | nil => rw [List.take_nil]
  | cons b bs ih =>
    by_cases hle : offset ≤ here
    · rw [byteWalk?_of_le hle, byteWalk?_of_le hle]
    · have htake : (b :: bs).take (offset - here) = b :: bs.take (offset - (here + 1)) := by
        rw [List.take_cons (by omega), Nat.sub_sub]
      rw [htake, byteWalk?, byteWalk?, ih, ih]

/-- The walk counts the newlines before the offset. -/
theorem line_of_byteWalk? (h : byteWalk? offset n start here bs = some p) :
    p.line = n + (bs.take (offset - here)).count newlineByte := by
  have honLine {n start : Nat} (h : onLine? offset n start = some p) : p.line = n := by
    unfold onLine? at h
    split at h
    · cases h
      rfl
    · cases h
  induction bs generalizing n start here with
  | nil =>
    rw [List.take_nil, List.count_nil]
    exact honLine h
  | cons b bs ih =>
    by_cases hle : offset ≤ here
    · rw [Nat.sub_eq_zero_of_le hle, List.take_zero, List.count_nil]
      rw [byteWalk?_of_le hle] at h
      exact honLine h
    · rw [List.take_cons (by omega), Nat.sub_sub]
      rw [byteWalk?, if_neg hle] at h
      by_cases hb : b = newlineByte
      · rw [if_pos hb] at h
        rw [ih h, hb, List.count_cons_self]
        omega
      · rw [if_neg hb] at h
        rw [ih h, List.count_cons_of_ne hb]

/-- The line of an offset is told by the newlines among the bytes before it. -/
theorem line_ofOffset (source : Text) (offset : Nat) :
    (ofOffset source offset).line = 1 + ((bytes source).take offset).count newlineByte :=
  line_of_byteWalk? (byteWalk?_bytes source offset)

/-- Sources with the same bytes before an offset give it the same position. -/
theorem ofOffset_congr {source source' : Text}
    (h : (bytes source').take offset = (bytes source).take offset) :
    ofOffset source' offset = ofOffset source offset := by
  have hwalk (source : Text) :
      byteWalk? offset 1 0 0 ((bytes source).take offset) = some (ofOffset source offset) :=
    (byteWalk?_take 0).trans (byteWalk?_bytes source offset)
  have hsame := hwalk source'
  rw [h, hwalk source] at hsame
  exact (Option.some.inj hsame).symm

/-! ## Order -/

/-- A later offset has a later position. -/
theorem before_of_lt (hlt : offset < offset') (hle : offset' ≤ byteLength source) :
    (ofOffset source offset).Before (ofOffset source offset') := by
  obtain ⟨before, line, after, h⟩ := exists_inLine (Nat.le_trans (Nat.le_of_lt hlt) hle)
  obtain ⟨before', line', after', h'⟩ := exists_inLine hle
  have hcount : (ofOffset source offset).line ≤ (ofOffset source offset').line := by
    rw [line_ofOffset, line_ofOffset]
    exact Nat.add_le_add_left
      ((List.take_prefix_take_left (Nat.le_of_lt hlt)).sublist.count_le _) 1
  rw [h.ofOffset_eq, h'.ofOffset_eq] at hcount ⊢
  rcases Nat.lt_or_eq_of_le hcount with hline | hline
  · exact .inl hline
  · have hbefore : before = before' :=
      (List.append_inj (h.lines_eq.symm.trans h'.lines_eq) (Nat.succ.inj hline)).1
    subst hbefore
    have hstart := h.start_le
    exact .inr ⟨rfl, show _ - _ < _ - _ by omega⟩

theorem Before.asymm {p q : Position} (h : p.Before q) : ¬ q.Before p := by
  unfold Before at *
  omega

theorem not_before_self (p : Position) : ¬ p.Before p :=
  fun h => h.asymm h

/-- Positions are ordered as the offsets are. -/
theorem before_iff (h : offset ≤ byteLength source) (h' : offset' ≤ byteLength source) :
    (ofOffset source offset).Before (ofOffset source offset') ↔ offset < offset' := by
  refine ⟨fun hbefore => ?_, fun hlt => before_of_lt hlt h'⟩
  rcases Nat.lt_trichotomy offset offset' with hlt | rfl | hlt
  · exact hlt
  · exact absurd hbefore (not_before_self _)
  · exact absurd (before_of_lt hlt h) hbefore.asymm

/-- A position stands for one offset. -/
theorem ofOffset_injective (h : offset ≤ byteLength source) (h' : offset' ≤ byteLength source)
    (heq : ofOffset source offset = ofOffset source offset') : offset = offset' := by
  have hlt := before_iff h h'
  have hgt := before_iff h' h
  rw [heq] at hlt hgt
  have hnot := not_before_self (ofOffset source offset')
  exact Nat.le_antisymm (Nat.not_lt.mp (mt hgt.mpr hnot)) (Nat.not_lt.mp (mt hlt.mpr hnot))

/-! ## The line of an offset and the lines in front of it -/

/-- What the position of an offset says: its line is one more than the newlines before the offset,
the source has this line, the line is long enough, and the lines in front of it with their newlines
make up the rest of the offset. -/
structure Locates (source : Text) (offset : Nat) (p : Position) : Prop where
  line_eq : p.line = 1 + ((bytes source).take offset).count newlineByte
  line_le : p.line ≤ (splitLines source).length
  byteOffset_le : ∃ line, (splitLines source)[p.line - 1]? = some line ∧
    p.byteOffset ≤ byteLength line
  offset_eq : (((splitLines source).take (p.line - 1)).map (byteLength · + 1)).sum +
    p.byteOffset = offset

theorem locates_ofOffset (hle : offset ≤ byteLength source) :
    Locates source offset (ofOffset source offset) := by
  obtain ⟨before, line, after, h⟩ := exists_inLine hle
  have hstart := h.start_le
  have hend := h.le_end
  have hlines := h.lines_eq
  refine ⟨line_ofOffset source offset, ?_, ?_, ?_⟩
  all_goals rw [h.ofOffset_eq, hlines]
  · rw [List.length_append, List.length_cons]
    exact Nat.add_le_add_left (Nat.le_add_left _ _) _
  · refine ⟨line, ?_, show _ - _ ≤ _ by omega⟩
    rw [Nat.add_sub_cancel, List.getElem?_append_right (Nat.le_refl _), Nat.sub_self,
      List.getElem?_cons_zero]
  · rw [Nat.add_sub_cancel, List.take_left, ← byteLength_unlines]
    exact Nat.add_sub_of_le hstart

/-- Where an error leaves a suffix of the source, the failing line is cut into a part that has been
read and the first line of the suffix. -/
theorem InLine.split_of_suffix {e : ParseError} (hsuffix : e.rest <:+ source)
    (h : InLine source (e.offsetIn source) before l after) :
    ∃ seen, l = seen ++ e.rest.takeWhile (· != '\n') ∧ source = unlines before ++ seen ++ e.rest ∧
      (e.report source).position.byteOffset = byteLength seen := by
  obtain ⟨lead, rfl⟩ := hsuffix
  have hoffset : e.offsetIn (lead ++ e.rest) = byteLength lead :=
    ParseError.offsetIn_append e.cause lead e.rest
  have hposition : (e.report (lead ++ e.rest)).position.byteOffset =
      e.offsetIn (lead ++ e.rest) - byteLength (unlines before) :=
    h.byteOffset_ofOffset
  rw [hoffset] at h hposition
  obtain ⟨seen, unseen, rfl, rfl, hrest⟩ := h.split_of_append
  have hunseen : ∀ c ∈ unseen, (c != '\n') = true := by
    intro c hc
    refine bne_iff_ne.mpr fun heq => h.newline_notMem ?_
    rw [← heq]
    exact List.mem_append_right seen hc
  have hline : e.rest.takeWhile (· != '\n') = unseen := by
    rw [hrest, List.takeWhile_append_of_pos hunseen, takeWhile_flatMap_newline, List.append_nil]
  refine ⟨seen, by rw [hline], rfl, ?_⟩
  rw [hposition, byteLength_append, Nat.add_sub_cancel_left]

end Position

namespace Report

/-- Whatever an error leaves, its offset lies in the source, the walk to the offset never takes a
larger number from a smaller one, and the position says exactly which offset it is.  A position
stands for one offset, positions are ordered as the offsets are, and a position depends on the bytes
before the offset only. -/
theorem position_locates_offset (e : ParseError) (source : Text) :
    e.offsetIn source ≤ byteLength source ∧
    Position.byteWalk? (e.offsetIn source) 1 0 0 (bytes source) =
      some (e.report source).position ∧
    Position.Locates source (e.offsetIn source) (e.report source).position ∧
    (∀ e' : ParseError, (e'.report source).position = (e.report source).position →
      e'.offsetIn source = e.offsetIn source) ∧
    (∀ e' : ParseError, (e.report source).position.Before (e'.report source).position ↔
      e.offsetIn source < e'.offsetIn source) ∧
    ∀ (e' : ParseError) (source' : Text), e'.offsetIn source' = e.offsetIn source →
      (bytes source').take (e.offsetIn source) = (bytes source).take (e.offsetIn source) →
      (e'.report source').position = (e.report source).position := by
  have hle := e.offsetIn_le source
  refine ⟨hle, Position.byteWalk?_bytes source _, Position.locates_ofOffset hle, ?_, ?_, ?_⟩
  · intro e' heq
    exact Position.ofOffset_injective (e'.offsetIn_le source) hle heq
  · intro e'
    exact Position.before_iff hle (e'.offsetIn_le source)
  · intro e' source' hoffset hbytes
    show Position.ofOffset source' (e'.offsetIn source') = _
    rw [hoffset]
    exact Position.ofOffset_congr hbytes

/-- An offset inside a character: the first byte of `é` is that of `è` too, and what follows does not
matter.  An error that leaves as many bytes has the same offset, as the position tells. -/
theorem position_locates_inside :
    (ParseError.report ⟨.noAlternative, "x".toList⟩ "aè".toList).position =
      (ParseError.report ⟨.noAlternative, "xyz".toList⟩ "aé\nb".toList).position ∧
    ParseError.offsetIn ⟨.sequenceBroken, "éb".toList⟩ "aé\nb".toList =
      ParseError.offsetIn ⟨.noAlternative, "xyz".toList⟩ "aé\nb".toList := by
  obtain ⟨-, -, -, hinjective, -, hcongr⟩ :=
    position_locates_offset ⟨.noAlternative, "xyz".toList⟩ "aé\nb".toList
  exact ⟨hcongr ⟨.noAlternative, "x".toList⟩ "aè".toList (by decide) (by decide),
    hinjective ⟨.sequenceBroken, "éb".toList⟩ (by decide)⟩

end Report

end TextParsing
