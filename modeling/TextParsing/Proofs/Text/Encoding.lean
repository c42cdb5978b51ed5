import TextParsing.Text

/-!
# The bytes of a text

`Text.bytes` is the UTF-8 encoding of a text.  It tells the first byte of a character from all
others, so that the bytes of a text that is not empty occur only where one of the characters begins:

    (bytes s).length = byteLength s                                              (length_bytes)
    bytes s <+: bytes t ↔ s <+: t                                                (bytes_prefix_iff)
    marker ≠ [] → bytes marker <+: (bytes s).drop i →
      ∃ lead tail, s = lead ++ tail ∧ byteLength lead = i ∧ marker <+: tail
                                                                        (split_of_bytes_prefix_drop)

Hence the byte of a newline is no part of any other character (`newlineByte_notMem`), and newlines can
be looked for among the bytes of a text.
-/

namespace TextParsing.Text

/-- The UTF-8 encoding of a text. -/
def bytes (s : Text) : List UInt8 := s.flatMap String.utf8EncodeChar

/-- The encoding of a newline. -/
def newlineByte : UInt8 := 10

@[simp] theorem bytes_nil : bytes [] = [] := rfl

@[simp] theorem bytes_cons (c : Char) (s : Text) :
    bytes (c :: s) = String.utf8EncodeChar c ++ bytes s :=
  List.flatMap_cons

@[simp] theorem bytes_append (s t : Text) : bytes (s ++ t) = bytes s ++ bytes t :=
  List.flatMap_append

@[simp] theorem length_bytes (s : Text) : (bytes s).length = byteLength s := by
  induction s with
  | nil => rfl
  | cons c s ih =>
    rw [bytes_cons, List.length_append, String.length_utf8EncodeChar, ih, byteLength_cons]

/-! ## Where the bytes of a text occur -/

theorem bytes_prefix_iff {s t : Text} : bytes s <+: bytes t ↔ s <+: t := by
  constructor
  · rintro ⟨us, h⟩
    refine List.isPrefix_of_utf8Encode_append_eq_utf8Encode us.toByteArray ?_
    have := congrArg List.toByteArray h
    rwa [List.toByteArray_append] at this
  · rintro ⟨u, rfl⟩
    rw [bytes_append]
    exact List.prefix_append _ _

/-- The first bytes of a text are those of its first character. -/
theorem getElem?_bytes_cons (s : Text) {c : Char} {i : Nat}
    (hi : i < (String.utf8EncodeChar c).length) :
    (bytes (c :: s))[i]? = some (String.utf8EncodeChar c)[i] := by
  rw [bytes_cons, List.getElem?_append_left hi, List.getElem?_eq_getElem hi]

theorem length_utf8EncodeChar_pos (c : Char) : 0 < (String.utf8EncodeChar c).length := by
  rw [String.length_utf8EncodeChar]
  exact c.utf8Size_pos

/-- The bytes inside the encoding of a character do not begin another one. -/
theorem not_bytes_prefix_inside {c : Char} {marker s : Text} {i : Nat} (hmarker : marker ≠ [])
    (hpos : 0 < i) (hlt : i < c.utf8Size) : ¬ bytes marker <+: (bytes (c :: s)).drop i := by
  intro h
  obtain ⟨d, marker, rfl⟩ := List.exists_cons_of_ne_nil hmarker
  have hi : i < (String.utf8EncodeChar c).length := by rwa [String.length_utf8EncodeChar]
  have hd := length_utf8EncodeChar_pos d
  -- the byte at which the marker would begin is both a first byte and a later one
  have hsame : ((bytes (c :: s)).drop i)[0]? = (bytes (d :: marker))[0]? := by
    obtain ⟨us, hus⟩ := h
    rw [← hus, List.getElem?_append_left]
    rw [bytes_cons, List.length_append]
    omega
  rw [List.getElem?_drop, Nat.add_zero, getElem?_bytes_cons s hi, getElem?_bytes_cons marker hd]
    at hsame
  have hstart : (String.utf8EncodeChar c)[i].IsUTF8FirstByte := by
    rw [Option.some.inj hsame]
    exact UInt8.isUTF8FirstByte_getElem_zero_utf8EncodeChar
  exact Nat.ne_of_gt hpos (UInt8.isUTF8FirstByte_getElem_utf8EncodeChar.mp hstart)

/-- Where the bytes of a marker occur, a character begins, and the marker occurs there. -/
theorem split_of_bytes_prefix_drop {marker s : Text} {i : Nat} (hmarker : marker ≠ [])
    (h : bytes marker <+: (bytes s).drop i) :
    ∃ lead tail, s = lead ++ tail ∧ byteLength lead = i ∧ marker <+: tail := by
  induction s generalizing i with
  | nil =>
    rw [bytes_nil, List.drop_nil] at h
    exact absurd (bytes_prefix_iff.mp h) (mt List.prefix_nil.mp hmarker)
  | cons c s ih =>
    rcases Nat.eq_zero_or_pos i with rfl | hpos
    · exact ⟨[], c :: s, rfl, rfl, bytes_prefix_iff.mp h⟩
    · have hle : c.utf8Size ≤ i := Nat.le_of_not_lt fun hlt =>
        not_bytes_prefix_inside hmarker hpos hlt h
      have hdrop : (bytes (c :: s)).drop i = (bytes s).drop (i - c.utf8Size) := by
        rw [bytes_cons, List.drop_append, String.length_utf8EncodeChar,
          List.drop_eq_nil_of_le (by rwa [String.length_utf8EncodeChar]), List.nil_append]
      rw [hdrop] at h
      obtain ⟨lead, tail, rfl, hlead, htail⟩ := ih h
      refine ⟨c :: lead, tail, rfl, ?_, htail⟩
      rw [byteLength_cons, hlead]
      omega

/-- Where a marker begins, its bytes occur. -/
theorem bytes_prefix_drop {marker tail : Text} (lead : Text) (h : marker <+: tail) :
    bytes marker <+: (bytes (lead ++ tail)).drop (byteLength lead) := by
  rw [bytes_append, ← length_bytes, List.drop_left]
  exact bytes_prefix_iff.mpr h

/-! ## Newlines -/

theorem bytes_newline (s : Text) : bytes ('\n' :: s) = newlineByte :: bytes s := by
  rw [bytes_cons]
  rfl

/-- The encodings of the other characters do not have the byte of a newline. -/
theorem newlineByte_notMem {c : Char} (h : c ≠ '\n') : newlineByte ∉ String.utf8EncodeChar c := by
  intro hmem
  obtain ⟨us, vs, hsplit⟩ := List.append_of_mem hmem
  have hoccurs : bytes ['\n'] <+: (bytes [c]).drop us.length := by
    rw [bytes_cons c, bytes_nil, List.append_nil, hsplit, List.drop_left]
    exact ⟨vs, rfl⟩
  obtain ⟨lead, tail, hc, -, htail⟩ := split_of_bytes_prefix_drop (List.cons_ne_nil _ _) hoccurs
  have hnewline : '\n' ∈ [c] := by
    rw [hc]
    exact List.mem_append_right lead (htail.mem List.mem_cons_self)
  exact h (List.mem_singleton.mp hnewline).symm

end TextParsing.Text
