import TextParsing.Proofs.Text.Encoding

/-!
# Where a text can be cut

A text can be cut behind some of its bytes: at the end of it, and where the byte that follows is the
first one of a character (`IsBoundary`).  These are the sizes of the beginnings of the text.

    IsBoundary s n ↔ ∃ lead tail, s = lead ++ tail ∧ byteLength lead = n           (isBoundary_iff)
    splitAtByte? n s = some (lead, tail) ↔
      s = lead ++ tail ∧ byteLength lead = n                             (splitAtByte?_eq_some_iff)

A cut divides the characters as it divides the bytes (`bytes_of_splitAtByte?`).
-/

namespace TextParsing.Text

variable {s lead tail : Text} {c : Char} {n : Nat}

/-- Whether byte `n` is the first one of a character, or `n` is the end of the text. -/
def IsBoundary (s : Text) (n : Nat) : Prop :=
  n = byteLength s ∨ ∃ b ∈ (bytes s)[n]?, b.IsUTF8FirstByte

instance (s : Text) (n : Nat) : Decidable (IsBoundary s n) :=
  inferInstanceAs (Decidable (n = byteLength s ∨ ∃ b ∈ (bytes s)[n]?, b.IsUTF8FirstByte))

/-- The pieces of a text in front of byte `n` and from it on.  There are none if the byte is inside a
character or beyond the end. -/
def splitAtByte? (n : Nat) (s : Text) : Option (Text × Text) :=
  (fromByte? n s).map fun tail => (s.take (s.length - tail.length), tail)

/-! ## Boundaries -/

theorem isBoundary_byteLength (lead tail : Text) : IsBoundary (lead ++ tail) (byteLength lead) := by
  cases tail with
  | nil => exact .inl (by rw [List.append_nil])
  | cons c tail =>
    have hpos := length_utf8EncodeChar_pos c
    refine .inr ⟨(String.utf8EncodeChar c)[0], ?_, UInt8.isUTF8FirstByte_getElem_zero_utf8EncodeChar⟩
    rw [Option.mem_def, bytes_append, List.getElem?_append_right (by simp), length_bytes,
      Nat.sub_self, getElem?_bytes_cons tail hpos]

theorem isBoundary_cons_of_le (hle : c.utf8Size ≤ n) (h : IsBoundary (c :: s) n) :
    IsBoundary s (n - c.utf8Size) := by
  rcases h with hend | ⟨b, hb, hfirst⟩
  · left
    rw [hend, byteLength_cons, Nat.add_sub_cancel_left]
  · refine .inr ⟨b, ?_, hfirst⟩
    rwa [bytes_cons, List.getElem?_append_right (by rwa [String.length_utf8EncodeChar]),
      String.length_utf8EncodeChar] at hb

/-- Inside a character there is no boundary. -/
theorem not_isBoundary_inside (hpos : 0 < n) (hlt : n < c.utf8Size) : ¬ IsBoundary (c :: s) n := by
  rintro (hend | ⟨b, hb, hfirst⟩)
  · rw [byteLength_cons] at hend
    omega
  · have hn : n < (String.utf8EncodeChar c).length := by rwa [String.length_utf8EncodeChar]
    rw [Option.mem_def, getElem?_bytes_cons s hn, Option.some.injEq] at hb
    rw [← hb, UInt8.isUTF8FirstByte_getElem_utf8EncodeChar] at hfirst
    omega

/-- The boundaries are the sizes of the beginnings. -/
theorem isBoundary_iff : IsBoundary s n ↔ ∃ lead tail, s = lead ++ tail ∧ byteLength lead = n := by
  constructor
  · intro h
    induction s generalizing n with
    | nil =>
      rcases h with rfl | ⟨b, hb, -⟩
      · exact ⟨[], [], rfl, rfl⟩
      · cases hb
    | cons c s ih =>
      rcases Nat.eq_zero_or_pos n with rfl | hpos
      · exact ⟨[], c :: s, rfl, rfl⟩
      · have hle : c.utf8Size ≤ n := Nat.le_of_not_lt fun hlt => not_isBoundary_inside hpos hlt h
        obtain ⟨lead, tail, rfl, hlead⟩ := ih (isBoundary_cons_of_le hle h)
        refine ⟨c :: lead, tail, rfl, ?_⟩
        rw [byteLength_cons, hlead]
        omega
  · rintro ⟨lead, tail, rfl, rfl⟩
    exact isBoundary_byteLength lead tail

theorem IsBoundary.le_byteLength (h : IsBoundary s n) : n ≤ byteLength s := by
  obtain ⟨lead, tail, rfl, rfl⟩ := isBoundary_iff.mp h
  rw [byteLength_append]
  exact Nat.le_add_right _ _

/-! ## Cutting -/

theorem fromByte?_eq_some_iff :
    fromByte? n s = some tail ↔ ∃ lead, s = lead ++ tail ∧ byteLength lead = n := by
  constructor
  · intro h
    fun_induction fromByte? n s with
    | case1 s =>
      cases h
      exact ⟨[], rfl, rfl⟩
    | case2 n => cases h
    | case3 n c s hle ih =>
      obtain ⟨lead, rfl, hlead⟩ := ih h
      refine ⟨c :: lead, rfl, ?_⟩
      rw [byteLength_cons, hlead]
      omega
    | case4 n c s hlt => cases h
  · rintro ⟨lead, rfl, rfl⟩
    exact fromByte?_byteLength lead tail

theorem splitAtByte?_eq_some_iff :
    splitAtByte? n s = some (lead, tail) ↔ s = lead ++ tail ∧ byteLength lead = n := by
  rw [splitAtByte?, Option.map_eq_some_iff]
  constructor
  · rintro ⟨tail, h, heq⟩
    obtain ⟨lead, rfl, hlead⟩ := fromByte?_eq_some_iff.mp h
    rw [List.length_append, Nat.add_sub_cancel, List.take_left] at heq
    cases heq
    exact ⟨rfl, hlead⟩
  · rintro ⟨rfl, rfl⟩
    refine ⟨tail, fromByte?_byteLength lead tail, ?_⟩
    rw [List.length_append, Nat.add_sub_cancel, List.take_left]

/-- A text can be cut at its boundaries and nowhere else. -/
theorem isSome_splitAtByte?_iff : (splitAtByte? n s).isSome ↔ IsBoundary s n := by
  rw [Option.isSome_iff_exists, isBoundary_iff]
  constructor
  · rintro ⟨⟨lead, tail⟩, h⟩
    exact ⟨lead, tail, splitAtByte?_eq_some_iff.mp h⟩
  · rintro ⟨lead, tail, h⟩
    exact ⟨(lead, tail), splitAtByte?_eq_some_iff.mpr h⟩

/-- The pieces have the bytes in front of the cut and those behind it. -/
theorem bytes_of_splitAtByte? (h : splitAtByte? n s = some (lead, tail)) :
    bytes lead = (bytes s).take n ∧ bytes tail = (bytes s).drop n := by
  obtain ⟨rfl, rfl⟩ := splitAtByte?_eq_some_iff.mp h
  rw [bytes_append, ← length_bytes, List.take_left, List.drop_left]
  exact ⟨rfl, rfl⟩

end TextParsing.Text
