import TextParsing.Unicode.Word

/-!
# Regular expressions: abstract syntax and zero-width tests

A `Regex` is built from character sets and zero-width tests (`Look`).  The order of the branches
of `alt` and the flag of `times` state which match is preferred.  Two measures of an expression
tell what it can match as far as its form shows it: `onlyEmpty` and `leastLength?`.
-/

namespace TextParsing

/-- Which kind of place a word test looks for. -/
inductive WordSide where
  | boundary
  | inside
  | start
  | finish
  | startHalf
  | finishHalf
  deriving DecidableEq, Repr

/-- A test on the two characters around a place in the text. -/
inductive Look where
  | textStart
  | textEnd
  | lineStart (crlf : Bool)
  | lineEnd (crlf : Bool)
  | word (side : WordSide) (unicode : Bool)
  deriving DecidableEq, Repr

/-- Whether a character belongs to words, in Unicode or in ASCII only. -/
def isWord (unicode : Bool) (c : Char) : Bool :=
  if unicode then Unicode.isWordChar c else c.isAlphanum || c == '_'

/-- Whether a word test holds between a character that is (or is not) of a word and the next. -/
def WordSide.holds (before after : Bool) : WordSide → Bool
  | .boundary => before != after
  | .inside => before == after
  | .start => !before && after
  | .finish => before && !after
  | .startHalf => !before
  | .finishHalf => !after

/-- Whether a test holds between the characters `before` and `after`; `none` is an end of the
text. -/
def Look.holds (before after : Option Char) : Look → Bool
  | .textStart => before.isNone
  | .textEnd => after.isNone
  | .lineStart false => before.isNone || before == some '\n'
  | .lineEnd false => after.isNone || after == some '\n'
  | .lineStart true =>
    before.isNone || before == some '\n' || (before == some '\r' && after != some '\n')
  | .lineEnd true =>
    after.isNone || after == some '\r' || (after == some '\n' && before != some '\r')
  | .word side unicode => side.holds (before.any (isWord unicode)) (after.any (isWord unicode))

/-- A regular expression.  A `group` has a number, which no other group of the pattern has.  A set of
characters that is read without Unicode differs from one that is read with it, even if both have the
same characters. -/
inductive Regex where
  | empty
  | chars (set : CharSet) (unicode : Bool := true)
  | look (test : Look)
  | group (number : Nat) (body : Regex)
  | cat (first second : Regex)
  | alt (preferred other : Regex)
  | times (greedy : Bool) (least : Nat) (most : Option Nat) (body : Regex)
  deriving DecidableEq

namespace Regex

/-- Whether an expression matches nothing but the empty text, as far as its form shows it. -/
def onlyEmpty : Regex → Bool
  | empty => true
  | chars _ _ => false
  | look _ => true
  | group _ a => onlyEmpty a
  | cat a b => onlyEmpty a && onlyEmpty b
  | alt a b => onlyEmpty a && onlyEmpty b
  | times _ _ most a => most.isSome && onlyEmpty a

/-- The length of the shortest match, as far as the form of the expression shows it.  An expression
that contains the empty set of characters has none. -/
def leastLength? : Regex → Option Nat
  | empty => some 0
  | chars set _ => if set.isNone then none else some 1
  | look _ => some 0
  | group _ a => leastLength? a
  | cat a b => (leastLength? a).bind fun m => (leastLength? b).map fun n => m + n
  | alt a b => (leastLength? a).bind fun m => (leastLength? b).map fun n => min m n
  | times _ least _ a => (leastLength? a).map fun n => n * least

/-- Whether it can be seen that every match takes at least one character. -/
def isSolid (r : Regex) : Bool := r.leastLength?.any (0 < ·)

end Regex

end TextParsing
