import Mathlib.Data.List.Induction
import Mathlib.Data.Nat.Digits.Defs
import TextParsing.Proofs.Parser.Taking
import TextParsing.Proofs.Text.Run

/-!
# Numerals of 64-bit numbers

The number that decimal digits denote is `Text.decimalValue`: each digit counts ten times as much as
the one behind it.  `number` reads the longest run of digits, whatever its length, and succeeds if
the value of all of them fits into 64 bits:

    Text.decimalValue (List.replicate zeros '0' ++ Text.decimal n) = n
                                                                  (decimalValue_zeros_decimal)
-/

namespace TextParsing

namespace Text

/-- The number that decimal digits denote. -/
def decimalValue (digits : Text) : Nat :=
  Nat.ofDigits 10 (digits.reverse.map fun c => c.toNat - '0'.toNat)

/-- Reading digits from the left gives their value. -/
theorem ofDecimal_eq_decimalValue (digits : Text) : ofDecimal digits = decimalValue digits := by
  induction digits using List.reverseRecOn with
  | nil => rfl
  | append_singleton digits c ih =>
    have hleft : ofDecimal (digits ++ [c]) = 10 * ofDecimal digits + (c.toNat - '0'.toNat) :=
      Nat.ofDigitChars_append 0
    have hright : decimalValue (digits ++ [c]) = (c.toNat - '0'.toNat) + 10 * decimalValue digits := by
      rw [decimalValue, List.reverse_concat, List.map_cons, Nat.ofDigits_cons]
      rfl
    rw [hleft, hright, ih, Nat.add_comm]

theorem ofDecimal_zeros_append (zeros : Nat) (digits : Text) :
    ofDecimal (List.replicate zeros '0' ++ digits) = ofDecimal digits := by
  induction zeros with
  | zero => rfl
  | succ zeros ih => exact ih

/-- A number with zeros in front of its numeral. -/
theorem decimalValue_zeros_decimal (zeros n : Nat) :
    decimalValue (List.replicate zeros '0' ++ decimal n) = n := by
  rw [← ofDecimal_eq_decimalValue, ofDecimal_zeros_append, ofDecimal_decimal]

end Text

namespace Parser

open Text (takeWhile_eq_nil_of_head?)

variable {digits rest : Text}

/-- Every text begins with a run of digits and goes on with something else. -/
theorem exists_digits_append (s : Text) : ∃ digits rest, s = digits ++ rest ∧
    (∀ c ∈ digits, c.isDigit = true) ∧ ∀ c ∈ rest.head?, c.isDigit = false :=
  Text.exists_run_append Char.isDigit s

/-- A numeral consists of digits, also with zeros in front. -/
theorem isDigit_of_mem_zeros_decimal (zeros n : Nat) :
    ∀ c ∈ List.replicate zeros '0' ++ Text.decimal n, c.isDigit = true := by
  intro c hc
  rcases List.mem_append.mp hc with hc | hc
  · rw [List.eq_of_mem_replicate hc]
    decide
  · exact Nat.isDigit_of_mem_toDigits (by decide) (by decide) hc

/-- The digits of a number are taken whole. -/
theorem takes_digits (hne : digits ≠ []) (hdigits : ∀ c ∈ digits, c.isDigit = true)
    (hrest : ∀ c ∈ rest.head?, c.isDigit = false) :
    Takes (runAtLeast 1 Char.isDigit) digits digits rest :=
  takes_runAtLeast (List.length_pos_iff.mpr hne) hdigits (takeWhile_eq_nil_of_head? hrest)

/-- Where no digit stands in front, there is no number. -/
theorem number_of_head? (hrest : ∀ c ∈ rest.head?, c.isDigit = false) :
    number (.ofText rest) = some (.failure ⟨.numberMissing, rest⟩) := by
  have hrun : runAtLeast 1 Char.isDigit (.ofText ([] ++ rest)) =
      some (.failure ⟨.runTooShort 1 0, [] ++ rest⟩) :=
    runAtLeast_of_short Nat.zero_lt_one (by simp) (takeWhile_eq_nil_of_head? hrest)
  exact number_of_no_run hrun

/-- Digits whose value fits into 64 bits are taken with this value. -/
theorem exists_takes_number (hne : digits ≠ []) (hdigits : ∀ c ∈ digits, c.isDigit = true)
    (hrest : ∀ c ∈ rest.head?, c.isDigit = false) (hlt : Text.decimalValue digits < 2 ^ 64) :
    ∃ n : UInt64, Takes number digits n rest ∧ n.toNat = Text.decimalValue digits := by
  have hn : (UInt64.ofNatLT (Text.decimalValue digits) hlt).toNat = Text.decimalValue digits :=
    UInt64.toNat_ofNatLT
  refine ⟨_, number_of_word (takes_digits hne hdigits hrest) ?_, hn⟩
  exact Text.word?_eq_some_iff.mpr ((Text.ofDecimal_eq_decimalValue digits).trans hn.symm)

/-- Digits whose value does not fit into 64 bits are named in the failure. -/
theorem number_of_le (hne : digits ≠ []) (hdigits : ∀ c ∈ digits, c.isDigit = true)
    (hrest : ∀ c ∈ rest.head?, c.isDigit = false) (hle : 2 ^ 64 ≤ Text.decimalValue digits) :
    number (.ofText (digits ++ rest)) = some (.failure ⟨.numberTooLarge digits, digits ++ rest⟩) :=
  number_of_no_word (takes_digits hne hdigits hrest)
    (Text.word?_eq_none_iff.mpr (by rwa [Text.ofDecimal_eq_decimalValue]))

/-- Every input begins with a run of digits, which may be empty, and goes on with something else.
Without digits there is no number.  Otherwise the number is the value of all of them, however many
zeros are in front, if it fits into 64 bits; if not, the digits are named in the failure.  A number
is read from its numeral whatever follows but a digit. -/
theorem number_reads_numerals (input : Input) :
    (∃ digits rest, input.text = digits ++ rest ∧ (∀ c ∈ digits, c.isDigit = true) ∧
      (∀ c ∈ rest.head?, c.isDigit = false) ∧
      (digits = [] → ∃ e, number input = some (.failure e) ∧ e.rest = input.text ∧
        e.message = "no unsigned number".toList) ∧
      (digits ≠ [] → Text.decimalValue digits < 2 ^ 64 →
        ∃ n : UInt64, number input = some (.success n (.ofText rest)) ∧
          n.toNat = Text.decimalValue digits) ∧
      (digits ≠ [] → 2 ^ 64 ≤ Text.decimalValue digits →
        ∃ e, number input = some (.failure e) ∧ e.rest = input.text ∧
          e.message = "number too large: ".toList ++ digits)) ∧
    ∀ n zeros tail, n < 2 ^ 64 → (∀ c ∈ tail.head?, c.isDigit = false) →
      ∃ w : UInt64, w.toNat = n ∧
        number (.ofText (List.replicate zeros '0' ++ Text.decimal n ++ tail)) =
          some (.success w (.ofText tail)) := by
  refine ⟨?_, ?_⟩
  · obtain ⟨digits, rest, htext, hdigits, hrest⟩ := exists_digits_append input.text
    obtain rfl := Input.eq_ofText_iff.mpr htext
    refine ⟨digits, rest, htext, hdigits, hrest, ?_, ?_, ?_⟩
    · rintro rfl
      exact ⟨_, number_of_head? hrest, rfl, rfl⟩
    · intro hne hlt
      exact exists_takes_number hne hdigits hrest hlt
    · intro hne hle
      exact ⟨_, number_of_le hne hdigits hrest hle, rfl, rfl⟩
  · intro n zeros tail hn htail
    have hvalue := Text.decimalValue_zeros_decimal zeros n
    have hne : List.replicate zeros '0' ++ Text.decimal n ≠ [] :=
      List.append_ne_nil_of_right_ne_nil _ (List.length_pos_iff.mp Nat.length_toDigits_pos)
    obtain ⟨w, hw, heq⟩ := exists_takes_number hne (isDigit_of_mem_zeros_decimal zeros n) htail
      (hvalue.symm ▸ hn)
    exact ⟨w, heq.trans hvalue, hw⟩

/-- The largest number of 64 bits is read with zeros in front of it, and the next one is refused. -/
theorem number_reads_numerals_limit :
    (∃ w : UInt64, w.toNat = 18446744073709551615 ∧
      number (.ofText "0018446744073709551615x".toList) =
        some (.success w (.ofText "x".toList))) ∧
    ∃ e, number (.ofText "18446744073709551616x".toList) = some (.failure e) ∧
      e.message = "number too large: 18446744073709551616".toList := by
  refine ⟨?_, ?_⟩
  · have htext : "0018446744073709551615x".toList =
        List.replicate 2 '0' ++ Text.decimal 18446744073709551615 ++ "x".toList := by
      decide +kernel
    rw [htext]
    exact (number_reads_numerals (.ofText [])).2 _ 2 "x".toList (by decide) (by simp)
  · obtain ⟨⟨digits, rest, htext, hdigits, hrest, -, -, hlarge⟩, -⟩ :=
      number_reads_numerals (.ofText "18446744073709551616x".toList)
    have hrun : "18446744073709551616x".toList.takeWhile Char.isDigit = digits := by
      rw [← Input.text_ofText "18446744073709551616x".toList, htext,
        List.takeWhile_append_of_pos hdigits, takeWhile_eq_nil_of_head? hrest, List.append_nil]
    obtain rfl : "18446744073709551616".toList = digits := Eq.trans (by decide) hrun
    obtain ⟨e, he, -, hmessage⟩ := hlarge (by decide) (by decide)
    exact ⟨e, he, hmessage.trans (by decide)⟩

end Parser

end TextParsing
