import TextParsing.Unicode.WhiteSpace
import TextParsing.Text

/-!
# Layout in patterns, and the numbers that patterns contain

In verbose mode white space and comments (from `#` to the end of the line) may stand between the
tokens of a pattern; `skip` passes over them.  Decimal counts allow white space around them in any
mode.

    (skip verbose s).length ≤ s.length                                 (skip_length_le)
-/

namespace TextParsing.Regex

/-! ## Layout -/

/-- Passes over white space and comments; `comment` tells that a comment is open. -/
def skipLayout (comment : Bool) : Text → Text
  | [] => []
  | c :: s =>
    if comment then skipLayout (c != '\n') s
    else if Unicode.isWhiteSpace c then skipLayout false s
    else if c = '#' then skipLayout true s
    else c :: s

/-- Passes over layout in verbose mode, and over nothing otherwise. -/
def skip (verbose : Bool) (s : Text) : Text := if verbose then skipLayout false s else s

@[simp] theorem skip_nil (verbose : Bool) : skip verbose [] = [] := by
  unfold skip
  split <;> rfl

theorem skipLayout_length_le (comment : Bool) (s : Text) :
    (skipLayout comment s).length ≤ s.length := by
  induction s generalizing comment with
  | nil => simp [skipLayout]
  | cons c s ih =>
    unfold skipLayout
    have := ih (c != '\n')
    have := ih false
    have := ih true
    repeat' split
    all_goals simp; try omega

theorem skip_length_le (verbose : Bool) (s : Text) : (skip verbose s).length ≤ s.length := by
  unfold skip
  split
  · exact skipLayout_length_le false s
  · exact Nat.le_refl _

theorem length_lt_of_skip {verbose : Bool} {c : Char} {s r : Text} (h : skip verbose s = c :: r) :
    r.length < s.length := by
  have := skip_length_le verbose s
  rw [h] at this
  exact this

/-- The first character that is neither white space nor the `#` that opens the first comment. -/
def peekLayout (opened : Bool) : Text → Option Char
  | [] => none
  | c :: s =>
    if Unicode.isWhiteSpace c then peekLayout opened s
    else if c = '#' ∧ opened = false then peekLayout true s
    else some c

/-- The character that decides whether a hyphen before `s` forms a range; in verbose mode the
look-ahead passes over white space and over the sign that opens a comment. -/
def peek (verbose : Bool) (s : Text) : Option Char :=
  if verbose then (peekLayout false s).or s.head? else s.head?

/-! ## Decimal counts -/

/-- Reads digits, with layout after each of them. -/
def readDigits (verbose : Bool) : Text → Text × Text
  | [] => ([], [])
  | c :: s =>
    if c.isDigit then
      let (digits, rest) := readDigits verbose (skip verbose s)
      (c :: digits, rest)
    else ([], c :: s)
termination_by s => s.length
decreasing_by
  have := skip_length_le verbose s
  simp
  omega

theorem readDigits_length_le (verbose : Bool) (s : Text) :
    (readDigits verbose s).2.length ≤ s.length := by
  fun_induction readDigits verbose s with
  | case1 => simp
  | case2 c s hc digits rest heq ih =>
    have := skip_length_le verbose s
    simp_all
    omega
  | case3 => simp

/-- The counts that a pattern may contain are below 2^32. -/
def countBound : Nat := 4294967296

/-- Reads a decimal count with blanks around it. -/
def readCount (verbose : Bool) (s : Text) : Option (Nat × Text) :=
  match readDigits verbose (s.dropWhile Unicode.isWhiteSpace) with
  | ([], _) => none
  | (digits, rest) =>
    if Text.ofDecimal digits < countBound then
      some (Text.ofDecimal digits, rest.dropWhile Unicode.isWhiteSpace)
    else none

theorem readCount_length_le {verbose : Bool} {s rest : Text} {n : Nat}
    (h : readCount verbose s = some (n, rest)) : rest.length ≤ s.length := by
  unfold readCount at h
  have hd := readDigits_length_le verbose (s.dropWhile Unicode.isWhiteSpace)
  have hs := (List.dropWhile_suffix Unicode.isWhiteSpace (l := s)).length_le
  split at h
  · cases h
  · next digits r heq _ =>
    have hr := (List.dropWhile_suffix Unicode.isWhiteSpace (l := r)).length_le
    split at h
    · cases h
      simp_all
      omega
    · cases h

end TextParsing.Regex
