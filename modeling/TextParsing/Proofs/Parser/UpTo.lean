import TextParsing.Parser.Run
import TextParsing.Proofs.Text.Encoding

/-!
# Text up to a marker

`upTo marker` cuts its input at the first place where the marker occurs, or at the end (`firstAt`):

    upTo marker input = some (.success (input.text.take (firstAt marker input.text))
      (input.drop (firstAt marker input.text)))                                          (upTo_eq)

The same place is reached by passing over one character after the other until the marker begins, and
it is the place that a search for the bytes of the marker among the bytes of the input finds:

    scan marker [] s = (s.take (firstAt marker s), s.drop (firstAt marker s))            (scan_eq)
    (findBytes? (bytes marker) (bytes s)).getD (byteLength s) =
      byteLength (s.take (firstAt marker s))                                   (findBytes?_getD)
-/

namespace TextParsing

namespace Text

variable {marker taken s lead tail : Text} {i j : Nat}

/-! ## The first place of a marker -/

/-- The number of characters in front of the first occurrence of the marker, or in front of the end
if there is none. -/
def firstAt (marker s : Text) : Nat := (find? marker s).getD s.length

theorem firstAt_nil (marker : Text) : firstAt marker [] = 0 := by
  rw [firstAt, find?]
  split
  · rfl
  · rfl

theorem firstAt_eq_zero (h : marker <+: s) : firstAt marker s = 0 := by
  cases s with
  | nil => exact firstAt_nil marker
  | cons c s => rw [firstAt, find?, if_pos h, Option.getD_some]

/-- On nothing, and where the marker begins, nothing stands in front. -/
theorem firstAt_eq_zero_of_stop (h : s = [] ∨ marker <+: s) : firstAt marker s = 0 := by
  rcases h with rfl | h
  · exact firstAt_nil marker
  · exact firstAt_eq_zero h

theorem firstAt_cons {c : Char} (h : ¬ marker <+: c :: s) :
    firstAt marker (c :: s) = firstAt marker s + 1 := by
  rw [firstAt, firstAt, find?, if_neg h, List.length_cons]
  cases find? marker s with
  | none => rfl
  | some i => rfl

/-- The rest from the first place on is empty, or the marker begins there. -/
theorem firstAt_stops (marker s : Text) :
    s.drop (firstAt marker s) = [] ∨ marker <+: s.drop (firstAt marker s) := by
  induction s with
  | nil => exact .inl List.drop_nil
  | cons c s ih =>
    by_cases h : marker <+: c :: s
    · rw [firstAt_eq_zero h]
      exact .inr h
    · rw [firstAt_cons h]
      exact ih

/-- No occurrence of the marker begins before the first place. -/
theorem firstAt_le (h : marker <+: tail) : firstAt marker (lead ++ tail) ≤ lead.length := by
  induction lead with
  | nil =>
    rw [List.nil_append, firstAt_eq_zero h]
    exact Nat.le_refl 0
  | cons c lead ih =>
    by_cases hfirst : marker <+: c :: (lead ++ tail)
    · rw [List.cons_append, firstAt_eq_zero hfirst]
      exact Nat.zero_le _
    · rw [List.cons_append, firstAt_cons hfirst]
      exact Nat.succ_le_succ ih

/-- A search finds the first place, if the marker begins there. -/
theorem find?_eq (marker s : Text) : find? marker s =
    if marker <+: s.drop (firstAt marker s) then some (firstAt marker s) else none := by
  induction s with
  | nil => simp only [find?, firstAt_nil, List.drop_nil, List.prefix_nil]
  | cons c s ih =>
    by_cases hfirst : marker <+: c :: s
    · rw [find?, if_pos hfirst, firstAt_eq_zero hfirst, List.drop_zero, if_pos hfirst]
    · rw [find?, if_neg hfirst, ih, firstAt_cons hfirst, List.drop_succ_cons,
        apply_ite (Option.map _), Option.map_some, Option.map_none]

/-! ## Passing over characters -/

/-- Passes over one character after the other and appends it to what has been taken, until nothing is
left or the marker begins. -/
def scan (marker taken : Text) : Text → Text × Text
  | [] => (taken, [])
  | c :: s => if marker <+: c :: s then (taken, c :: s) else scan marker (taken ++ [c]) s

theorem scan_eq (marker taken s : Text) :
    scan marker taken s = (taken ++ s.take (firstAt marker s), s.drop (firstAt marker s)) := by
  induction s generalizing taken with
  | nil => rw [scan, List.take_nil, List.drop_nil, List.append_nil]
  | cons c s ih =>
    by_cases h : marker <+: c :: s
    · rw [scan, if_pos h, firstAt_eq_zero h, List.take_zero, List.drop_zero, List.append_nil]
    · rw [scan, if_neg h, ih, firstAt_cons h, List.take_succ_cons, List.drop_succ_cons,
        List.append_assoc, List.singleton_append]

/-! ## Searching for bytes -/

/-- The first offset in `hay` at which the bytes of `needle` stand. -/
def findBytes? (needle hay : List UInt8) : Option Nat :=
  (List.range (hay.length + 1)).find? fun i => decide (needle <+: hay.drop i)

theorem findBytes?_eq_some_iff {needle hay : List UInt8} :
    findBytes? needle hay = some i ↔
      i ≤ hay.length ∧ needle <+: hay.drop i ∧ ∀ j < i, ¬ needle <+: hay.drop j := by
  rw [findBytes?, List.find?_range_eq_some]
  simp only [decide_eq_true_eq, List.mem_range, Nat.lt_succ_iff, Bool.not_eq_true',
    decide_eq_false_iff_not]
  exact and_left_comm

theorem findBytes?_eq_none_iff {needle hay : List UInt8} :
    findBytes? needle hay = none ↔ ∀ i ≤ hay.length, ¬ needle <+: hay.drop i := by
  rw [findBytes?, List.find?_range_eq_none]
  simp only [Nat.lt_succ_iff, Bool.not_eq_true', decide_eq_false_iff_not]

/-- Where the marker begins at the first place, its bytes occur there. -/
theorem bytes_prefix_firstAt (h : marker <+: s.drop (firstAt marker s)) :
    bytes marker <+: (bytes s).drop (byteLength (s.take (firstAt marker s))) := by
  have hoccurs := bytes_prefix_drop (s.take (firstAt marker s)) h
  rwa [List.take_append_drop] at hoccurs

/-- The bytes of the marker do not occur before the first place, nor inside a character there. -/
theorem not_bytes_prefix_before (hj : j < byteLength (s.take (firstAt marker s))) :
    ¬ bytes marker <+: (bytes s).drop j := by
  intro h
  by_cases hempty : marker = []
  · rw [hempty, firstAt_eq_zero List.nil_prefix] at hj
    exact absurd hj (Nat.not_lt_zero j)
  · obtain ⟨lead, tail, rfl, rfl, htail⟩ := split_of_bytes_prefix_drop hempty h
    have hle : firstAt marker (lead ++ tail) ≤ lead.length := firstAt_le htail
    rw [List.take_append_of_le_length hle] at hj
    have hsplit := congrArg byteLength (List.take_append_drop (firstAt marker (lead ++ tail)) lead)
    rw [byteLength_append] at hsplit
    omega

/-- A search among the bytes finds the place that a search among the characters finds. -/
theorem findBytes?_eq (marker s : Text) :
    findBytes? (bytes marker) (bytes s) = (find? marker s).map fun i => byteLength (s.take i) := by
  have hsplit := congrArg byteLength (List.take_append_drop (firstAt marker s) s)
  rw [byteLength_append] at hsplit
  by_cases hmarker : marker <+: s.drop (firstAt marker s)
  · rw [find?_eq, if_pos hmarker, Option.map_some]
    refine findBytes?_eq_some_iff.mpr ⟨?_, bytes_prefix_firstAt hmarker, fun j => ?_⟩
    · rw [length_bytes]
      omega
    · exact not_bytes_prefix_before
  · have hend := (firstAt_stops marker s).resolve_right hmarker
    have hall : byteLength (s.take (firstAt marker s)) = byteLength s := by
      rw [hend, byteLength_nil] at hsplit
      exact hsplit
    rw [find?_eq, if_neg hmarker, Option.map_none]
    refine findBytes?_eq_none_iff.mpr fun i hi h => ?_
    rw [length_bytes] at hi
    rcases Nat.lt_or_eq_of_le hi with hlt | rfl
    · exact not_bytes_prefix_before (hall ▸ hlt) h
    · rw [← length_bytes, List.drop_length, ← bytes_nil] at h
      exact hmarker (hend ▸ bytes_prefix_iff.mp h)

/-- The place of the marker in bytes, or the end of the text. -/
theorem findBytes?_getD (marker s : Text) :
    (findBytes? (bytes marker) (bytes s)).getD (byteLength s) =
      byteLength (s.take (firstAt marker s)) := by
  rw [findBytes?_eq, firstAt]
  cases find? marker s with
  | none => rw [Option.map_none, Option.getD_none, Option.getD_none, List.take_length]
  | some i => rw [Option.map_some, Option.getD_some, Option.getD_some]

end Text

namespace Parser

open Text

/-- Text up to a marker is what stands in front of the first place. -/
theorem upTo_eq (marker : Text) (input : Input) :
    upTo marker input = some (.success (input.text.take (firstAt marker input.text))
      (input.drop (firstAt marker input.text))) := by
  unfold upTo ofFunction firstAt
  dsimp only
  cases find? marker input.text with
  | none => rw [Option.getD_none, List.take_length, input.length_eq]
  | some i => rw [Option.getD_some]

/-- Text up to a marker is always found.  With the rest it makes up the input; passing over one
character after the other leads to the same place, as does a search for the bytes of the marker.  The
rest is empty or begins with the marker, and no occurrence begins before it.  An empty marker is found
at once, a marker that does not occur only at the end, and on the rest nothing more is taken. -/
theorem upTo_stops_at_first (marker : Text) (input : Input) :
    ∃ value rest, upTo marker input = some (.success value rest) ∧
      value ++ rest.text = input.text ∧
      scan marker [] input.text = (value, rest.text) ∧
      byteLength value =
        (findBytes? (bytes marker) (bytes input.text)).getD (byteLength input.text) ∧
      (rest.text = [] ∨ marker <+: rest.text) ∧
      (∀ lead tail, input.text = lead ++ tail → marker <+: tail → value.length ≤ lead.length) ∧
      (marker = [] → value = [] ∧ rest = input) ∧
      (¬ marker <:+: input.text → value = input.text ∧ rest.text = []) ∧
      upTo marker rest = some (.success [] rest) := by
  have hstops := firstAt_stops marker input.text
  refine ⟨_, _, upTo_eq marker input, List.take_append_drop _ _, ?_, ?_, hstops, ?_, ?_, ?_, ?_⟩
  · rw [scan_eq, List.nil_append]
    rfl
  · rw [findBytes?_getD]
  · rintro lead tail heq htail
    rw [heq]
    exact Nat.le_trans (List.length_take_le _ _) (firstAt_le htail)
  · rintro rfl
    rw [firstAt_eq_zero List.nil_prefix]
    exact ⟨List.take_zero, Input.ext List.drop_zero⟩
  · intro hmissing
    have hend := hstops.resolve_right fun h =>
      hmissing (h.isInfix.trans (List.drop_suffix _ _).isInfix)
    have hsplit := List.take_append_drop (firstAt marker input.text) input.text
    rw [hend, List.append_nil] at hsplit
    exact ⟨hsplit, hend⟩
  · have hzero : firstAt marker (input.text.drop (firstAt marker input.text)) = 0 := by
      rcases hstops with hend | hmarker
      · rw [hend, firstAt_nil]
      · exact firstAt_eq_zero hmarker
    have hdrop (rest : Input) : rest.drop 0 = rest := Input.ext List.drop_zero
    rw [upTo_eq, Input.text_drop, hzero, List.take_zero, hdrop]

/-- A marker that overlaps itself, in text with characters of several bytes: the first of two
occurrences with a common character counts.  In a text without the marker, all of it is taken. -/
theorem upTo_stops_at_first_overlap :
    (∃ value rest, upTo "éaé".toList (.ofText "éééaéaé".toList) = some (.success value rest) ∧
      value.length ≤ 2 ∧ byteLength value = 4) ∧
    ∃ rest, upTo "éaé".toList (.ofText "ééa".toList) = some (.success "ééa".toList rest) := by
  constructor
  · obtain ⟨value, rest, h, -, -, hbytes, -, hfirst, -⟩ :=
      upTo_stops_at_first "éaé".toList (.ofText "éééaéaé".toList)
    refine ⟨value, rest, h, hfirst "éé".toList "éaéaé".toList rfl ⟨"aé".toList, rfl⟩, ?_⟩
    rw [hbytes]
    decide +kernel
  · obtain ⟨value, rest, h, -, -, -, -, -, -, hmissing, -⟩ :=
      upTo_stops_at_first "éaé".toList (.ofText "ééa".toList)
    obtain ⟨rfl, -⟩ := hmissing (by decide)
    exact ⟨rest, h⟩

end Parser

end TextParsing
