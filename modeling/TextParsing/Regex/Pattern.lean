import TextParsing.Pattern
import TextParsing.Regex.Nesting
import TextParsing.Regex.Search

/-!
# Compiling patterns

A pattern text is compiled by reading the expression that it denotes and making the plan to search for
it.  Case can be ignored from the start; the text of the pattern does not show that.

    Pattern.compile ic s = .ok p → p.text = s                          (text_of_compile)
-/

namespace TextParsing

/-- The text denotes no expression, or one that is nested too deep. -/
def SyntaxError.malformed : SyntaxError := ⟨"regex parse error:".toList⟩

namespace Pattern

/-- The pattern with a text and an expression. -/
def ofRegex (text : Text) (r : Regex) : Pattern :=
  let plan := r.plan
  { text := text, find? := plan.find? }

/-- Reads a pattern, with case ignored from the start or not. -/
def compile (ignoreCase : Bool) (text : Text) : Except SyntaxError Pattern :=
  match Regex.ofPattern? { ignoreCase := ignoreCase } text with
  | some r =>
    if Regex.nesting { ignoreCase := ignoreCase } text ≤ Regex.nestingLimit then .ok (ofRegex text r)
    else .error .malformed
  | none => .error .malformed

theorem compile_eq_ok_iff {ignoreCase : Bool} {text : Text} {p : Pattern} :
    compile ignoreCase text = .ok p ↔
      ∃ r, Regex.ofPattern? { ignoreCase := ignoreCase } text = some r ∧
        Regex.nesting { ignoreCase := ignoreCase } text ≤ Regex.nestingLimit ∧ p = ofRegex text r := by
  unfold compile
  cases Regex.ofPattern? { ignoreCase := ignoreCase } text with
  | none => simp
  | some r =>
    dsimp only
    split
    · next h => simp [h, eq_comm]
    · next h => simp [h]

theorem compile_eq_error_iff {ignoreCase : Bool} {text : Text} {e : SyntaxError} :
    compile ignoreCase text = .error e ↔ e = .malformed ∧
      (Regex.ofPattern? { ignoreCase := ignoreCase } text = none ∨
        Regex.nestingLimit < Regex.nesting { ignoreCase := ignoreCase } text) := by
  unfold compile
  cases Regex.ofPattern? { ignoreCase := ignoreCase } text with
  | none => simp [eq_comm]
  | some r =>
    dsimp only
    split
    · next h => simp [Nat.not_lt.mpr h]
    · next h => simp [Nat.lt_of_not_le h, eq_comm]

theorem text_of_compile {ignoreCase : Bool} {text : Text} {p : Pattern}
    (h : compile ignoreCase text = .ok p) : p.text = text := by
  obtain ⟨r, -, -, rfl⟩ := compile_eq_ok_iff.mp h
  rfl

end Pattern

end TextParsing
