import TextParsing.Text

/-!
# What is left to read

An `Input` is a text together with its length, so that two inputs can be compared by length without
walking to their ends.  Nothing else is added: inputs with the same text are equal.

    (input.drop n).text = input.text.drop n                            (text_drop)
    i.text = j.text → i = j                                            (Input.ext)
-/

namespace TextParsing

/-- A text with its length. -/
structure Input where
  text : Text
  length : Nat
  length_eq : length = text.length

namespace Input

/-- The input that consists of a text. -/
def ofText (s : Text) : Input := ⟨s, s.length, rfl⟩

/-- The input without its first `n` characters. -/
def drop (n : Nat) (input : Input) : Input :=
  ⟨input.text.drop n, input.length - n, by rw [List.length_drop, input.length_eq]⟩

@[simp] theorem text_ofText (s : Text) : (ofText s).text = s := rfl

@[simp] theorem text_drop (n : Nat) (input : Input) : (input.drop n).text = input.text.drop n := rfl

@[ext] theorem ext {i j : Input} (h : i.text = j.text) : i = j := by
  obtain ⟨s, m, hm⟩ := i
  obtain ⟨t, n, hn⟩ := j
  cases h
  cases hm
  cases hn
  rfl

theorem eq_ofText_iff {input : Input} {s : Text} : input = ofText s ↔ input.text = s :=
  ⟨fun h => h ▸ rfl, fun h => ext h⟩

@[simp] theorem ofText_text (input : Input) : ofText input.text = input := ext rfl

theorem ofText_drop (n : Nat) (input : Input) : ofText (input.text.drop n) = input.drop n := ext rfl

/-- What follows a lead is what is left without that many characters. -/
theorem drop_eq_iff_of_text_eq {input rest : Input} {lead : Text}
    (h : input.text = lead ++ rest.text) : input.drop lead.length = rest :=
  ext (by simp [h])

end Input

end TextParsing
