import TextParsing.Regex.Bracket

/-!
# Tokens of a pattern

`readToken` reads the token that begins with a given character.  Everything that needs looking
ahead is decided here: escapes, bracketed classes, the openings of groups, and the counts and
laziness marks of repetitions.  Only the verbose flag matters for it.

    readToken verbose c s = some (t, rest) → rest.length ≤ s.length    (readToken_length_le)
-/

namespace TextParsing.Regex

/-- An expression without parts. -/
inductive Atom where
  | char (c : Char) (narrow : Bool)
  | dot
  | letter (name : LetterClass) (negated : Bool)
  | bracketed (set : ClassSet)
  | assertion (a : Assertion)
  deriving Repr

/-- How a group is opened: it is numbered, numbered and named, or only sets flags. -/
inductive GroupStart where
  | numbered
  | named (name : Text)
  | plain (change : FlagChange)
  deriving Repr

/-- A unit of a pattern. -/
inductive Token where
  | atom (a : Atom)
  | bar
  | openGroup (start : GroupStart)
  | directive (change : FlagChange)
  | closeGroup
  | count (least : Nat) (most : Option Nat) (reluctant : Bool)
  deriving Repr

/-- The atom of an escape. -/
def Escape.toAtom : Escape → Atom
  | .char c narrow => .char c narrow
  | .letter name negated => .letter name negated
  | .assertion a => .assertion a

/-! ## Repetition -/

/-- Reads the mark of a reluctant repetition, if it is there. -/
def readReluctant (least : Nat) (most : Option Nat) : Text → Token × Text
  | '?' :: s => (.count least most true, s)
  | s => (.count least most false, s)

/-- Reads the end of a counted repetition. -/
def closeCount (verbose : Bool) (least : Nat) (most : Option Nat) : Text → Option (Token × Text)
  | '}' :: s =>
    if most.all (least ≤ ·) then some (readReluctant least most (skip verbose s)) else none
  | _ => none

/-- Reads a counted repetition after its opening brace: `n`, `n,` or `n,m`, and a closing brace. -/
def readCounts (verbose : Bool) (s : Text) : Option (Token × Text) :=
  (readCount verbose (skip verbose s)).bind fun (least, r) =>
    match r with
    | ',' :: r =>
      match skip verbose r with
      | '}' :: _ => closeCount verbose least none (skip verbose r)
      | r => (readCount verbose r).bind fun (most, r) => closeCount verbose least (some most) r
    | r => closeCount verbose least (some least) r

/-! ## Groups -/

/-- Whether a character may begin the name of a group. -/
def isNameStart (c : Char) : Bool := c == '_' || Unicode.isAlphabetic c

/-- Whether a character may occur in the name of a group. -/
def isNameChar (c : Char) : Bool :=
  c == '_' || c == '.' || c == '[' || c == ']' || Unicode.isAlphanumeric c

/-- Reads the name of a group and the bracket that ends it. -/
def readName : Text → Option (Text × Text)
  | [] => none
  | c :: s =>
    if isNameStart c then
      match s.dropWhile isNameChar with
      | '>' :: rest => some (c :: s.takeWhile isNameChar, rest)
      | _ => none
    else none

/-- Reads a named group after its opening. -/
def readNamedGroup (s : Text) : Option (Token × Text) :=
  (readName s).map fun (name, rest) => (.openGroup (.named name), rest)

/-- Reads a group with flags, or a directive, after the question mark. -/
def readFlagGroup (s : Text) : Option (Token × Text) :=
  match readFlags [] false false s with
  | some (change, .colon, rest) => some (.openGroup (.plain change), rest)
  | some ([], .paren, _) => none
  | some (change, .paren, rest) => some (.directive change, rest)
  | none => none

/-- Reads what follows an opening parenthesis and belongs to it.  Assertions about the text ahead
or behind are refused. -/
def readGroup : Text → Option (Token × Text)
  | '?' :: 'P' :: '<' :: s => readNamedGroup s
  | '?' :: '<' :: '=' :: _ => none
  | '?' :: '<' :: '!' :: _ => none
  | '?' :: '<' :: s => readNamedGroup s
  | '?' :: s => readFlagGroup s
  | s => some (.openGroup .numbered, s)

/-! ## Tokens -/

/-- Reads the token whose first character is `c`. -/
def readToken (verbose : Bool) (c : Char) (s : Text) : Option (Token × Text) :=
  match c with
  | '(' => readGroup (skip verbose s)
  | ')' => some (.closeGroup, s)
  | '|' => some (.bar, s)
  | '[' => (readClass verbose s).map fun (set, rest) => (.atom (.bracketed set), rest)
  | '?' => some (readReluctant 0 (some 1) s)
  | '*' => some (readReluctant 0 none s)
  | '+' => some (readReluctant 1 none s)
  | '{' => readCounts verbose s
  | '\\' => (readEscape verbose s).map fun (e, rest) => (.atom e.toAtom, rest)
  | '.' => some (.atom .dot, s)
  | '^' => some (.atom (.assertion .caret), s)
  | '$' => some (.atom (.assertion .dollar), s)
  | c => some (.atom (.char c false), s)

theorem readReluctant_length_le (least : Nat) (most : Option Nat) (s : Text) :
    (readReluctant least most s).2.length ≤ s.length := by
  unfold readReluctant
  split <;> simp

theorem length_le_of_readReluctant {least : Nat} {most : Option Nat} {s rest : Text} {t : Token}
    (h : readReluctant least most s = (t, rest)) : rest.length ≤ s.length := by
  have := readReluctant_length_le least most s
  rwa [h] at this

theorem closeCount_length_le {verbose : Bool} {least : Nat} {most : Option Nat} {s rest : Text}
    {t : Token} (h : closeCount verbose least most s = some (t, rest)) :
    rest.length ≤ s.length := by
  unfold closeCount at h
  split at h
  · next s =>
    split at h
    · have := length_le_of_readReluctant (Option.some.inj h)
      have := skip_length_le verbose s
      rw [List.length_cons]
      omega
    · cases h
  · cases h

theorem readCounts_length_le {verbose : Bool} {s rest : Text} {t : Token}
    (h : readCounts verbose s = some (t, rest)) : rest.length ≤ s.length := by
  obtain ⟨⟨least, r⟩, hl, h⟩ := Option.bind_eq_some_iff.mp h
  have hl := readCount_length_le hl
  have hs := skip_length_le verbose s
  dsimp only at h
  split at h
  · next r _ =>
    have := skip_length_le verbose r
    rw [List.length_cons] at hl
    split at h
    · have := closeCount_length_le h
      omega
    · obtain ⟨⟨most, r'⟩, hm, h⟩ := Option.bind_eq_some_iff.mp h
      have := readCount_length_le hm
      dsimp only at h
      have := closeCount_length_le h
      omega
  · have := closeCount_length_le h
    omega

theorem readName_length_le {s name rest : Text} (h : readName s = some (name, rest)) :
    rest.length ≤ s.length := by
  cases s with
  | nil => cases h
  | cons c s =>
    rw [readName] at h
    split at h
    · split at h
      · next r heq =>
        have hd := (List.dropWhile_suffix isNameChar (l := s)).length_le
        rw [heq] at hd
        cases h
        rw [List.length_cons] at hd ⊢
        omega
      · cases h
    · cases h

theorem readNamedGroup_length_le {s rest : Text} {t : Token}
    (h : readNamedGroup s = some (t, rest)) : rest.length ≤ s.length := by
  obtain ⟨⟨name, r⟩, hn, he⟩ := Option.map_eq_some_iff.mp h
  cases he
  exact readName_length_le hn

theorem readFlagGroup_length_le {s rest : Text} {t : Token}
    (h : readFlagGroup s = some (t, rest)) : rest.length ≤ s.length := by
  unfold readFlagGroup at h
  split at h
  · next hf =>
    cases h
    exact readFlags_length_le hf
  · cases h
  · next hf =>
    cases h
    exact readFlags_length_le hf
  · cases h

theorem readGroup_length_le {s rest : Text} {t : Token} (h : readGroup s = some (t, rest)) :
    rest.length ≤ s.length := by
  unfold readGroup at h
  split at h
  · have := readNamedGroup_length_le h
    simp only [List.length_cons]
    omega
  · cases h
  · cases h
  · have := readNamedGroup_length_le h
    simp only [List.length_cons]
    omega
  · have := readFlagGroup_length_le h
    simp only [List.length_cons]
    omega
  · cases h
    exact Nat.le_refl _

theorem readToken_length_le {verbose : Bool} {c : Char} {s rest : Text} {t : Token}
    (h : readToken verbose c s = some (t, rest)) : rest.length ≤ s.length := by
  unfold readToken at h
  split at h
  case h_1 => exact Nat.le_trans (readGroup_length_le h) (skip_length_le verbose s)
  case h_4 =>
    obtain ⟨⟨set, r⟩, hc, he⟩ := Option.map_eq_some_iff.mp h
    cases he
    exact readClass_length_le hc
  case h_5 => exact length_le_of_readReluctant (Option.some.inj h)
  case h_6 => exact length_le_of_readReluctant (Option.some.inj h)
  case h_7 => exact length_le_of_readReluctant (Option.some.inj h)
  case h_8 => exact readCounts_length_le h
  case h_9 =>
    obtain ⟨⟨e, r⟩, he', he⟩ := Option.map_eq_some_iff.mp h
    cases he
    exact readEscape_length_le he'
  all_goals
    cases h
    exact Nat.le_refl _

end TextParsing.Regex
