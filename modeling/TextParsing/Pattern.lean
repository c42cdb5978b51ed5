import TextParsing.Text

/-!
# Compiled patterns

A `Pattern` is what an engine makes of a pattern text: it keeps the text, and it can be searched for.
Nothing is said here about which texts are patterns and which match is found; this is up to the engine
(`Engine`).
-/

namespace TextParsing

/-- A match, by the places where it begins and ends. -/
structure Match where
  start : Nat
  stop : Nat
  deriving DecidableEq, Repr

/-- The part of the text that a match covers. -/
def Match.text (m : Match) (s : Text) : Text := (s.drop m.start).take (m.stop - m.start)

theorem Match.text_append_drop {m : Match} {w : Text} (h : m.start ≤ m.stop) :
    m.text w ++ w.drop m.stop = w.drop m.start := by
  have hstop : w.drop m.stop = (w.drop m.start).drop (m.stop - m.start) := by
    rw [List.drop_drop, Nat.add_sub_cancel' h]
  rw [Match.text, hstop, List.take_append_drop]

/-- Why a pattern text cannot be compiled, by the first line of the description. -/
structure SyntaxError where
  headline : Text
  deriving DecidableEq, Repr

/-- A pattern text that has been compiled, with the search for it. -/
structure Pattern where
  text : Text
  find? : Text → Option Match

end TextParsing
