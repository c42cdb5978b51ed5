import TextParsing.Parser
import TextParsing.Regex.Pattern

/-!
# Parsers of patterns

A `PatternParser` searches its input for a pattern that has been put between `^(?:` and `)`.  Its
value is the text of the match and its rest what follows the match; a failure leaves the input.

Pattern texts are compiled by an engine, of which only the function is used that compiles them:

    build compile s = .ok p → compile (anchor s) = .ok p.pattern              (build_eq_ok_iff)

`ofText` and `ofPattern` use the engine of this library.
-/

namespace TextParsing

/-- Why no parser can be made from a pattern text. -/
inductive PatternError where
  | invalid (cause : SyntaxError)
  deriving DecidableEq, Repr

/-- The first line of the description of the error. -/
def PatternError.headline : PatternError → Text
  | .invalid cause => "invalid regex pattern: ".toList ++ cause.headline

/-- A parser for a pattern. -/
structure PatternParser where
  pattern : Pattern

namespace PatternParser

/-- The pattern text that asks for a match of `s` at the beginning of the input. -/
def anchor (s : Text) : Text := "^(?:".toList ++ s ++ ")".toList

/-- The parser for a pattern text. -/
def build (compile : Text → Except SyntaxError Pattern) (s : Text) :
    Except PatternError PatternParser :=
  match compile (anchor s) with
  | .ok p => .ok ⟨p⟩
  | .error e => .error (.invalid e)

/-- The parser for a pattern that has been compiled already; only its text is used. -/
def rebuild (compile : Text → Except SyntaxError Pattern) (p : Pattern) :
    Except PatternError PatternParser := build compile p.text

/-- The parser for a pattern text. -/
def ofText (s : Text) : Except PatternError PatternParser := build (Pattern.compile false) s

/-- The parser for a pattern that has been compiled already. -/
def ofPattern (p : Pattern) : Except PatternError PatternParser := rebuild (Pattern.compile false) p

/-- Searches the input; the text before the match, if there is any, is passed over. -/
def parse (p : PatternParser) : Parser Text := Parser.ofFunction fun input =>
  match p.pattern.find? input.text with
  | some m => .success (m.text input.text) (input.drop m.stop)
  | none => .failure ⟨.patternMismatch p.pattern.text, input.text⟩

section

variable {compile : Text → Except SyntaxError Pattern} {s : Text} {p : PatternParser}
  {e : PatternError}

theorem build_eq_ok_iff : build compile s = .ok p ↔ compile (anchor s) = .ok p.pattern := by
  obtain ⟨q⟩ := p
  unfold build
  cases compile (anchor s) <;> simp

theorem build_eq_error_iff :
    build compile s = .error e ↔ ∃ cause, compile (anchor s) = .error cause ∧ e = .invalid cause := by
  unfold build
  cases compile (anchor s) with
  | ok q => simp
  | error cause => simp [eq_comm]

end

end PatternParser

end TextParsing
