import TextParsing.Parser.Choice
import TextParsing.Parser.Literal
import TextParsing.Parser.Matching
import TextParsing.Parser.Number
import TextParsing.Parser.Repetition
import TextParsing.Parser.Sequence
import TextParsing.Value

/-!
# Grammars

A `Grammar n` has `n` rules, each an expression (`Expr n`) that may refer to rules.  The meaning of
an expression is a parser, given parsers for the rules (`Expr.parser`).  The rules themselves are
unfolded to a depth of references:

    g.rule (d + 1) i = (g i).parser (g.rule d)                         (rule_succ)

At depth zero a rule does not answer.  `Grammar.parse` picks a depth that no chain of references
exceeds unless it comes back to a rule without having consumed anything.
-/

namespace TextParsing

/-- An expression over `n` rules.  `function` stands for any parser that is given as a function,
`deferred` for an expression that is only looked at when it is run. -/
inductive Expr (n : Nat) where
  | constant (v : Value)
  | literal (s : Text)
  | newline
  | number
  | charRun (required : Nat) (ok : Char → Bool)
  | upTo (marker : Text)
  | pattern (p : PatternParser)
  | function (f : Input → Outcome Value)
  | sequence (es : List (Expr n))
  | orElse (first second : Expr n)
  | repeatAtLeast (required : Nat) (e : Expr n)
  | map (f : Value → Value) (e : Expr n)
  | deferred (e : Expr n)
  | reference (i : Fin n)

/-- The expressions of `n` rules. -/
abbrev Grammar (n : Nat) := Fin n → Expr n

variable {n : Nat}

namespace Expr

/-- Any number of repetitions. -/
def many (e : Expr n) : Expr n := repeatAtLeast 0 e

/-- Two or more repetitions. -/
def several (e : Expr n) : Expr n := repeatAtLeast Parser.severalRounds e

/-- Two or more characters. -/
def longRun (ok : Char → Bool) : Expr n := charRun Parser.longRunLength ok

/-- One character, whatever it is. -/
def anyChar : Expr n := function fun input => (Parser.nextChar input).map .text

/-- A failure with the given message that leaves the input without its first characters. -/
def fail (message : Text) (skipped : Nat) : Expr n := function (Parser.refuse message skipped)

/-- The choice among several expressions, grouped to the left. -/
def firstOf (e : Expr n) (others : List (Expr n)) : Expr n := others.foldl orElse e

mutual

/-- The parser of an expression, given parsers for the rules. -/
def parser (rule : Fin n → Parser Value) : Expr n → Parser Value
  | constant v => Parser.constant v
  | literal s => (Parser.literal s).map .text
  | newline => Parser.newline.map .text
  | number => Parser.number.map .word
  | charRun required ok => (Parser.runAtLeast required ok).map .text
  | upTo marker => (Parser.upTo marker).map .text
  | pattern p => p.parse.map .text
  | function f => Parser.ofFunction f
  | sequence es => (Parser.sequence (parsers rule es)).map .tuple
  | orElse a b => Parser.orElse (parser rule a) (parser rule b)
  | repeatAtLeast required e => (Parser.repeatAtLeast required (parser rule e)).map .list
  | map f e => (parser rule e).map f
  | deferred e => parser rule e
  | reference i => rule i

/-- The parsers of several expressions, given parsers for the rules. -/
def parsers (rule : Fin n → Parser Value) : List (Expr n) → List (Parser Value)
  | [] => []
  | e :: es => parser rule e :: parsers rule es

end

theorem parsers_eq_map (rule : Fin n → Parser Value) (es : List (Expr n)) :
    parsers rule es = es.map (parser rule) := by
  induction es with
  | nil => rfl
  | cons e es ih => simp [parsers, ih]

end Expr

namespace Grammar

/-- The parser of a rule, unfolded to the given depth of references. -/
def rule (g : Grammar n) : Nat → Fin n → Parser Value
  | 0, _ => Parser.silent
  | d + 1, i => (g i).parser (g.rule d)

theorem rule_succ (g : Grammar n) (d : Nat) (i : Fin n) :
    g.rule (d + 1) i = (g i).parser (g.rule d) := rfl

/-- A depth of references: every rule once for each number of characters that can be left. -/
def depthFor (_ : Grammar n) (input : Input) : Nat := n * (input.length + 1)

/-- The parser of an expression over the rules of a grammar. -/
def parse (g : Grammar n) (e : Expr n) : Parser Value := fun input =>
  e.parser (g.rule (g.depthFor input)) input

end Grammar

end TextParsing
