/-!
# Text: lists of characters, their size in bytes, lines and numerals

A `Text` is a list of characters.  Its size in UTF-8 bytes is `Text.byteLength`, and

    byteLength (s ++ t) = byteLength s + byteLength t                  (byteLength_append)
    fromByte? (byteLength s) (s ++ t) = some t                         (fromByte?_byteLength)
    splitLines s                                is never empty         (splitLines_ne_nil)

`find?` is the place of the first occurrence of a marker.  `decimal` writes a number in base ten,
`word?` and `ofNumeral?` read one that fits into 64 bits.
-/

namespace TextParsing

/-- What parsers read: a sequence of Unicode scalar values. -/
abbrev Text := List Char

namespace Text

/-! ## Size in bytes -/

/-- The size of the UTF-8 encoding of a text. -/
def byteLength : Text → Nat
  | [] => 0
  | c :: s => c.utf8Size + byteLength s

@[simp] theorem byteLength_nil : byteLength [] = 0 := rfl

@[simp] theorem byteLength_cons (c : Char) (s : Text) :
    byteLength (c :: s) = c.utf8Size + byteLength s := rfl

@[simp] theorem byteLength_append (s t : Text) :
    byteLength (s ++ t) = byteLength s + byteLength t := by
  induction s with
  | nil => simp
  | cons c s ih => simp [ih, Nat.add_assoc]

theorem byteLength_le_of_suffix {s t : Text} (h : s <:+ t) : byteLength s ≤ byteLength t := by
  obtain ⟨lead, rfl⟩ := h
  rw [byteLength_append]
  exact Nat.le_add_left _ _

/-- The text from byte `n` on; there is none if the byte is inside a character or beyond the end. -/
def fromByte? : Nat → Text → Option Text
  | 0, s => some s
  | _ + 1, [] => none
  | n + 1, c :: s => if c.utf8Size ≤ n + 1 then fromByte? (n + 1 - c.utf8Size) s else none

theorem fromByte?_byteLength (s t : Text) : fromByte? (byteLength s) (s ++ t) = some t := by
  induction s with
  | nil => simp [fromByte?]
  | cons c s ih =>
    obtain ⟨n, hn⟩ : ∃ n, byteLength (c :: s) = n + 1 :=
      Nat.exists_eq_add_one.mpr (Nat.add_pos_left c.utf8Size_pos _)
    have hrest : n + 1 - c.utf8Size = byteLength s := by
      rw [← hn, byteLength_cons, Nat.add_sub_cancel_left]
    rw [hn, List.cons_append, fromByte?, hrest, if_pos, ih]
    rw [← hn, byteLength_cons]
    exact Nat.le_add_right _ _

/-! ## Markers -/

/-- How many characters stand before the first occurrence of `marker`. -/
def find? (marker : Text) : Text → Option Nat
  | [] => if marker = [] then some 0 else none
  | c :: s => if marker <+: c :: s then some 0 else (find? marker s).map (· + 1)

/-! ## Lines -/

/-- The pieces of a text between its newlines. -/
def splitLines : Text → List Text
  | [] => [[]]
  | c :: s =>
    if c = '\n' then [] :: splitLines s
    else match splitLines s with
      | [] => [[c]]
      | line :: lines => (c :: line) :: lines

theorem splitLines_ne_nil (s : Text) : splitLines s ≠ [] := by
  cases s with
  | nil => simp [splitLines]
  | cons c s =>
    unfold splitLines
    split
    · simp
    · split <;> simp

/-! ## Numerals -/

/-- A number in base ten, without leading zeros. -/
def decimal (n : Nat) : Text := Nat.toDigits 10 n

/-- The number that a sequence of decimal digits denotes. -/
def ofDecimal (digits : Text) : Nat := Nat.ofDigitChars 10 digits 0

/-- The number that a sequence of decimal digits denotes, if it fits into 64 bits. -/
def word? (digits : Text) : Option UInt64 :=
  if h : ofDecimal digits < UInt64.size then some (UInt64.ofNatLT (ofDecimal digits) h) else none

/-- The number that a numeral denotes, if it fits into 64 bits.  A numeral has at least one digit; a
plus sign may precede the digits. -/
def ofNumeral? (s : Text) : Option UInt64 :=
  let digits := match s with
    | '+' :: ds => ds
    | ds => ds
  if !digits.isEmpty && digits.all Char.isDigit then word? digits else none

theorem ofDecimal_decimal (n : Nat) : ofDecimal (decimal n) = n :=
  Nat.ofDigitChars_toDigits (by decide) (by decide)

theorem word?_eq_some_iff {digits : Text} {n : UInt64} :
    word? digits = some n ↔ ofDecimal digits = n.toNat := by
  unfold word?
  split
  · next h =>
    rw [Option.some.injEq, ← UInt64.toNat_inj, UInt64.toNat_ofNatLT]
  · next h =>
    have := n.toNat_lt
    simp only [reduceCtorEq, false_iff]
    intro e
    exact h (e ▸ this)

theorem word?_eq_none_iff {digits : Text} :
    word? digits = none ↔ UInt64.size ≤ ofDecimal digits := by
  rw [word?, dite_eq_right_iff]
  exact ⟨fun h => Nat.not_lt.mp fun hlt => Option.some_ne_none _ (h hlt),
    fun hle hlt => absurd hlt (Nat.not_lt.mpr hle)⟩

end Text

end TextParsing
