import TextParsing.Regex.CharClass
import TextParsing.Regex.Layout

/-!
# Escapes

`readEscape` reads what follows a backslash: a character (itself, by a letter, or by its code
point in hexadecimal), a class with a one-letter name, or a zero-width assertion.  References to
groups, and letters without a meaning, are refused.

    readEscape verbose s = some (e, rest) → rest.length ≤ s.length     (readEscape_length_le)
-/

namespace TextParsing.Regex

/-- A zero-width test as it is written; its meaning depends on the flags in force. -/
inductive Assertion where
  | caret
  | dollar
  | textStart
  | textEnd
  | word (side : WordSide)
  deriving DecidableEq, Repr

/-- What an escape stands for.  A character is `narrow` if it was given by exactly two digits. -/
inductive Escape where
  | char (c : Char) (narrow : Bool)
  | letter (name : LetterClass) (negated : Bool)
  | assertion (a : Assertion)
  deriving Repr

/-! ## Code points in hexadecimal -/

/-- Whether a character is a hexadecimal digit. -/
def isHexDigit (c : Char) : Bool :=
  c.isDigit || ('A' ≤ c && c ≤ 'F') || ('a' ≤ c && c ≤ 'f')

/-- The value of a hexadecimal digit. -/
def hexValue (c : Char) : Nat :=
  if c.isDigit then c.toNat - '0'.toNat
  else if c.isUpper then c.toNat - 'A'.toNat + 10
  else c.toNat - 'a'.toNat + 10

/-- The character whose code point the digits denote, if there are digits and it is a scalar
value. -/
def charOfHex? (digits : Text) : Option Char :=
  let n := digits.foldl (fun n c => 16 * n + hexValue c) 0
  if digits ≠ [] ∧ n.isValidChar then some (Char.ofNat n) else none

/-- Reads exactly `n` hexadecimal digits, with layout after each of them. -/
def readHexDigits (verbose : Bool) : Nat → Text → Option (Text × Text)
  | 0, s => some ([], s)
  | _ + 1, [] => none
  | n + 1, c :: s =>
    if isHexDigit c then
      (readHexDigits verbose n (skip verbose s)).map fun (digits, rest) => (c :: digits, rest)
    else none

theorem readHexDigits_length_le {verbose : Bool} {n : Nat} {s digits rest : Text}
    (h : readHexDigits verbose n s = some (digits, rest)) : rest.length ≤ s.length := by
  induction n generalizing s digits with
  | zero =>
    cases h
    exact Nat.le_refl _
  | succ n ih =>
    cases s with
    | nil => simp [readHexDigits] at h
    | cons c s =>
      unfold readHexDigits at h
      split at h
      · obtain ⟨⟨ds, r⟩, hr, he⟩ := Option.map_eq_some_iff.mp h
        cases he
        have := ih hr
        have := skip_length_le verbose s
        simp
        omega
      · cases h

/-- Reads hexadecimal digits up to a closing brace, with layout around each of them. -/
def readBraced (verbose : Bool) (s : Text) : Option (Text × Text) :=
  match _h : skip verbose s with
  | [] => none
  | c :: r =>
    if c = '}' then some ([], skip verbose r)
    else if isHexDigit c then
      (readBraced verbose r).map fun (digits, rest) => (c :: digits, rest)
    else none
termination_by s.length
decreasing_by
  exact length_lt_of_skip _h

theorem readBraced_length_le {verbose : Bool} {s digits rest : Text}
    (h : readBraced verbose s = some (digits, rest)) : rest.length ≤ s.length := by
  fun_induction readBraced verbose s generalizing digits with
  | case1 => cases h
  | case2 s r heq =>
    cases h
    have := length_lt_of_skip heq
    have := skip_length_le verbose r
    omega
  | case3 s c r heq hc hx ih =>
    obtain ⟨⟨ds, r'⟩, hr, he⟩ := Option.map_eq_some_iff.mp h
    cases he
    have := ih hr
    have := length_lt_of_skip heq
    omega
  | case4 => cases h

/-- Reads a code point: in braces, or with exactly `width` digits. -/
def readHex (verbose : Bool) (width : Nat) (s : Text) : Option (Escape × Text) :=
  match skip verbose s with
  | '{' :: r => (readBraced verbose r).bind fun (digits, rest) =>
    (charOfHex? digits).map fun c => (.char c false, rest)
  | r => (readHexDigits verbose width r).bind fun (digits, rest) =>
    (charOfHex? digits).map fun c => (.char c (width == 2), rest)

theorem readHex_length_le {verbose : Bool} {width : Nat} {s rest : Text} {e : Escape}
    (h : readHex verbose width s = some (e, rest)) : rest.length ≤ s.length := by
  have hs := skip_length_le verbose s
  unfold readHex at h
  split at h
  · next r heq =>
    obtain ⟨⟨ds, r'⟩, hr, he⟩ := Option.bind_eq_some_iff.mp h
    obtain ⟨c, -, he⟩ := Option.map_eq_some_iff.mp he
    cases he
    have := readBraced_length_le hr
    rw [heq] at hs
    simp at hs
    omega
  · obtain ⟨⟨ds, r'⟩, hr, he⟩ := Option.bind_eq_some_iff.mp h
    obtain ⟨c, -, he⟩ := Option.map_eq_some_iff.mp he
    cases he
    have := readHexDigits_length_le hr
    omega

/-! ## Word boundaries with a name -/

/-- Whether a character may occur in the name of a word boundary. -/
def isSideChar (c : Char) : Bool := c.isAlpha || c == '-'

/-- The word test of a name. -/
def sideOfName? (name : Text) : Option WordSide :=
  [("start", WordSide.start), ("end", .finish), ("start-half", .startHalf),
    ("end-half", .finishHalf)].findSome?
      fun entry => if entry.1.toList = name then some entry.2 else none

/-- Reads the characters of a name, with layout after each of them. -/
def readSideName (verbose : Bool) : Text → Text × Text
  | [] => ([], [])
  | c :: s =>
    if isSideChar c then
      let (name, rest) := readSideName verbose (skip verbose s)
      (c :: name, rest)
    else ([], c :: s)
termination_by s => s.length
decreasing_by
  have := skip_length_le verbose s
  simp
  omega

theorem readSideName_length_le (verbose : Bool) (s : Text) :
    (readSideName verbose s).2.length ≤ s.length := by
  fun_induction readSideName verbose s with
  | case1 => simp
  | case2 c s hc name rest heq ih =>
    have := skip_length_le verbose s
    simp_all
    omega
  | case3 => simp

/-- Reads what follows the letter of a word boundary: nothing, or a name in braces.  Braces that
begin with anything but a name are left for a counted repetition. -/
def readBoundary (verbose : Bool) (s : Text) : Option (WordSide × Text) :=
  match s with
  | '{' :: r =>
    match readSideName verbose (skip verbose r) with
    | ([], []) => none
    | ([], _ :: _) => some (.boundary, s)
    | (name, '}' :: rest) => (sideOfName? name).map fun side => (side, rest)
    | _ => none
  | _ => some (.boundary, s)

theorem readBoundary_length_le {verbose : Bool} {s rest : Text} {side : WordSide}
    (h : readBoundary verbose s = some (side, rest)) : rest.length ≤ s.length := by
  unfold readBoundary at h
  split at h
  · next r =>
    have hn := readSideName_length_le verbose (skip verbose r)
    have hs := skip_length_le verbose r
    split at h
    · cases h
    · cases h
      exact Nat.le_refl _
    · next name rest' _ heq =>
      obtain ⟨side', -, he⟩ := Option.map_eq_some_iff.mp h
      cases he
      rw [heq] at hn
      simp at hn ⊢
      omega
    · cases h
  · cases h
    exact Nat.le_refl _

/-! ## All escapes -/

/-- Whether a backslash before this character makes it literal. -/
def isEscapable (c : Char) : Bool :=
  c.toNat < 0x80 && !c.isAlphanum && c != '<' && c != '>'

/-- The control character that a letter stands for. -/
def controlOf? : Char → Option Char
  | 'a' => some '\x07'
  | 'f' => some '\x0C'
  | 't' => some '\t'
  | 'n' => some '\n'
  | 'r' => some '\r'
  | 'v' => some '\x0B'
  | _ => none

/-- The named class of a letter, and whether the letter negates it. -/
def letterOf? : Char → Option (LetterClass × Bool)
  | 'd' => some (.digit, false)
  | 'D' => some (.digit, true)
  | 's' => some (.space, false)
  | 'S' => some (.space, true)
  | 'w' => some (.word, false)
  | 'W' => some (.word, true)
  | _ => none

/-- The assertion of a character that needs no further reading. -/
def assertionOf? : Char → Option Assertion
  | 'A' => some .textStart
  | 'z' => some .textEnd
  | 'B' => some (.word .inside)
  | '<' => some (.word .start)
  | '>' => some (.word .finish)
  | _ => none

/-- The number of digits of a code point that is written without braces. -/
def hexWidth? : Char → Option Nat
  | 'x' => some 2
  | 'u' => some 4
  | 'U' => some 8
  | _ => none

/-- The escape that consists of a single character. -/
def escapeOf? (c : Char) : Option Escape :=
  if isEscapable c then some (.char c false)
  else match controlOf? c, letterOf? c, assertionOf? c with
    | some d, _, _ => some (.char d false)
    | _, some (name, negated), _ => some (.letter name negated)
    | _, _, some a => some (.assertion a)
    | _, _, _ => none

/-- Reads the character after a backslash and whatever belongs to it. -/
def readEscape (verbose : Bool) : Text → Option (Escape × Text)
  | [] => none
  | c :: s =>
    if c = 'b' then (readBoundary verbose s).map fun (side, rest) =>
      (.assertion (.word side), rest)
    else match hexWidth? c with
    | some width => readHex verbose width s
    | none => (escapeOf? c).map fun e => (e, s)

theorem readEscape_length_le {verbose : Bool} {s rest : Text} {e : Escape}
    (h : readEscape verbose s = some (e, rest)) : rest.length ≤ s.length := by
  cases s with
  | nil => simp [readEscape] at h
  | cons c s =>
    rw [readEscape] at h
    split at h
    · obtain ⟨⟨side, r⟩, hr, he⟩ := Option.map_eq_some_iff.mp h
      cases he
      have := readBoundary_length_le hr
      simp
      omega
    · split at h
      · have := readHex_length_le h
        simp
        omega
      · obtain ⟨e', -, he⟩ := Option.map_eq_some_iff.mp h
        cases he
        simp

end TextParsing.Regex
