import TextParsing.Parser.Matching

/-!
# Engines

An `Engine` compiles pattern texts into patterns that can be searched for.  Parsers of patterns work
with every engine; what they rely on is written down here, as laws on three things:

    ending s      what is open behind `s`, read as the beginning of a pattern
    Fits s        whether `s` is within the limits of size and nesting
    endAt s w i   where the match of `s` ends that is preferred of those that begin at place `i` of `w`

A text can be compiled if nothing but a comment is open behind it and it fits (`exists_compile_iff`), and
what is found is the preferred match of those that begin leftmost (`find?_iff`).
-/

namespace TextParsing

/-- What is open behind a text with which a pattern can begin: how many groups, and whether a comment,
which goes on to the end of its line. -/
structure Ending where
  groups : Nat
  comment : Bool
  deriving DecidableEq, Repr

namespace PatternParser

/-- The pattern text of a group that has no number and sets no flags. -/
def grouped (s : Text) : Text := "(?:".toList ++ s ++ ")".toList

/-- The pattern text whose branches are two patterns. -/
def either (s t : Text) : Text := grouped s ++ '|' :: grouped t

end PatternParser

open PatternParser (grouped either)

/-- What compiles pattern texts, with the laws of patterns that it keeps. -/
structure Engine where
  /-- Makes a pattern of a pattern text. -/
  compile : Text → Except SyntaxError Pattern
  /-- What is open behind a text; there is no answer if no pattern begins with the text, or if the text
  ends inside an escape, a class, the opening of a group or a count. -/
  ending : Text → Option Ending
  /-- The names of the groups of a pattern. -/
  groupNames : Text → List Text
  /-- Whether a pattern is within the limits of size and nesting. -/
  Fits : Text → Prop
  /-- Where the match of a pattern ends that is preferred of those that begin at a place of a text. -/
  endAt : Text → Text → Nat → Option Nat
  /-- The patterns are the texts behind which no group is open. -/
  exists_compile_iff (s : Text) :
    (∃ p, compile s = .ok p) ↔ (∃ comment, ending s = some ⟨0, comment⟩) ∧ Fits s
  /-- A pattern keeps its text. -/
  text_of_compile {s : Text} {p : Pattern} : compile s = .ok p → p.text = s
  /-- A search finds the preferred match of those that begin leftmost. -/
  find?_iff {s : Text} {p : Pattern} : compile s = .ok p → ∀ {w : Text} {m : Match},
    p.find? w = some m ↔ endAt s w m.start = some m.stop ∧ ∀ i < m.start, endAt s w i = none
  /-- A match is a part of the text. -/
  endAt_bounds {s w : Text} {i j : Nat} : endAt s w i = some j → i ≤ j ∧ j ≤ w.length
  /-- Inside a group, behind a caret, a text is read as it is by itself. -/
  ending_open {s : Text} {k : Nat} {comment : Bool} : ending s = some ⟨k, comment⟩ →
    ending ("^(?:".toList ++ s) = some ⟨k + 1, comment⟩
  /-- A closing parenthesis closes a group. -/
  ending_close {s : Text} {k : Nat} : ending s = some ⟨k + 1, false⟩ →
    ending (s ++ [')']) = some ⟨k, false⟩
  /-- A closing parenthesis is refused if no group is open. -/
  ending_unopened {s : Text} : ending s = some ⟨0, false⟩ → ending (s ++ [')']) = none
  /-- A comment begins with `#` and takes in the rest of its line, a closing parenthesis as well. -/
  ending_comment {s : Text} {k : Nat} : ending s = some ⟨k, true⟩ →
    (∃ comment, ending (s ++ [')']) = some ⟨k, comment⟩) ∧
      ∃ lead comment, s = lead ++ '#' :: comment ∧ '\n' ∉ comment
  /-- Two groups with a bar between them are a pattern, if no name is given twice. -/
  ending_either {s t : Text} : ending s = some ⟨0, false⟩ → ending t = some ⟨0, false⟩ →
    (∀ n ∈ groupNames t, n ∉ groupNames s) → ending (either s t) = some ⟨0, false⟩
  /-- A group matches what is inside it. -/
  endAt_group {s : Text} : ending s = some ⟨0, false⟩ → ∀ {w : Text} {i : Nat},
    endAt (grouped s) w i = endAt s w i
  /-- A caret matches at the start of the text and nowhere else. -/
  endAt_caret {s : Text} : ending s = some ⟨0, false⟩ → ∀ {w : Text} {i : Nat},
    endAt ('^' :: grouped s) w i = if i = 0 then endAt (grouped s) w i else none

/-- Whether a bar between two patterns prefers the first of them where the text begins: its match is
taken if there is one, and only else that of the second. -/
def Engine.PrefersFirst (E : Engine) (s t : Text) : Prop :=
  ∀ w, E.endAt (either s t) w 0 = (E.endAt (grouped s) w 0).or (E.endAt (grouped t) w 0)

end TextParsing
