import TextParsing.Regex.Compose
import TextParsing.Regex.Token

/-!
# From pattern text to expression

`Regex.ofPattern? flags s` reads the pattern `s` under the given flags.  The state of the reading is
a `Level` for the group that is being read and one for each group around it: the pieces of the
current branch, the branches before it, and the flags in force.  A directive holds until its group
ends; the flags from before the group return with its closing parenthesis.
-/

namespace TextParsing.Regex

/-! ## Atoms under flags -/

/-- The characters that a dot stands for. -/
def Flags.dot (f : Flags) : CharSet :=
  if f.dotAll then .all
  else .compl (.ofList (if f.crlf then ['\n', '\r'] else ['\n']))

/-- The zero-width test that an assertion stands for. -/
def Assertion.toLook (f : Flags) : Assertion → Look
  | .caret => if f.multiLine then .lineStart f.crlf else .textStart
  | .dollar => if f.multiLine then .lineEnd f.crlf else .textEnd
  | .textStart => .textStart
  | .textEnd => .textEnd
  | .word side => .word side f.unicode

/-- The expression of a set of characters.  Without Unicode, a set of several characters is a set of
bytes, which differs from every set that is read with Unicode. -/
def ofSet (f : Flags) (set : CharSet) : Regex :=
  chars set (f.unicode || set.isSingle || set.isNone)

/-- The expression that an atom stands for.  Without Unicode nothing may stand for a part of a
character's encoding: no dot, no negation, no byte beyond ASCII. -/
def Atom.toRegex? (f : Flags) : Atom → Option Regex
  | .char c narrow =>
    if !f.unicode && narrow && 0x80 ≤ c.toNat then none else some (ofSet f (fold f (.single c)))
  | .dot => if f.unicode then some (chars f.dot) else none
  | .letter name negated =>
    if !f.unicode && negated then none
    else some (ofSet f (negateIf negated (name.toCharSet f.unicode)))
  | .bracketed set => if set.allowed f then some (ofSet f (set.toCharSet f)) else none
  | .assertion a => some (look (a.toLook f))

/-! ## Levels -/

/-- A part of a branch; directives match nothing and cannot be repeated. -/
inductive Piece where
  | directive
  | regex (r : Regex)

/-- The expression of a part, if it is one. -/
def Piece.regex? : Piece → Option Regex
  | .directive => none
  | .regex r => some r

/-- A group that is being read, or the whole pattern: the number of the group if it has one, the
flags in force, the pieces of the current branch, the last one first, and the branches before it,
the last one first. -/
structure Level where
  number : Option Nat
  flags : Flags
  pieces : List Piece
  branches : List Regex

namespace Level

/-- The level at the beginning of a group. -/
def start (number : Option Nat) (f : Flags) : Level := ⟨number, f, [], []⟩

/-- The level with one more piece. -/
def add (l : Level) (r : Regex) : Level := { l with pieces := .regex r :: l.pieces }

/-- The expression of the current branch. -/
def branch (l : Level) : Regex := seqAll (l.pieces.reverse.filterMap Piece.regex?)

/-- The level after a bar. -/
def newBranch (l : Level) : Level := { l with pieces := [], branches := l.branch :: l.branches }

/-- The level after a directive. -/
def direct (l : Level) (change : FlagChange) : Level :=
  { l with flags := l.flags.apply change, pieces := .directive :: l.pieces }

/-- The expression of what is inside the level. -/
def body (l : Level) : Regex := choice (l.branch :: l.branches).reverse

/-- The expression of the whole level. -/
def close (l : Level) : Regex :=
  match l.number with
  | some n => group n l.body
  | none => l.body

/-- The level with its last piece repeated; there must be one that can be. -/
def repeatLast? (l : Level) (least : Nat) (most : Option Nat) (reluctant : Bool) : Option Level :=
  match l.pieces with
  | .regex r :: ps =>
    some { l with pieces := .regex (repeated (reluctant == l.flags.swapGreed) r least most) :: ps }
  | _ => none

end Level

/-- The state of the reading: the level that is being read, those around it, the names of the
groups so far, and how many groups have been numbered. -/
structure Reading where
  level : Level
  outer : List Level
  names : List Text
  count : Nat

namespace Reading

/-- The state at the beginning of a pattern. -/
def start (f : Flags) : Reading := ⟨.start none f, [], [], 0⟩

/-- The state with one more piece on its level. -/
def add (st : Reading) (r : Regex) : Reading := { st with level := st.level.add r }

/-- The state inside a group without a number. -/
def enterPlain (st : Reading) (change : FlagChange) : Reading :=
  { st with
    level := .start none (st.level.flags.apply change)
    outer := st.level :: st.outer }

/-- The state inside a group with a number, and with a name if there is one. -/
def enterNumbered (st : Reading) (name : Option Text) : Reading :=
  ⟨.start (some st.count) st.level.flags, st.level :: st.outer, name.toList ++ st.names,
    st.count + 1⟩

/-- The state after one more token. -/
def next? (st : Reading) : Token → Option Reading
  | .atom a => (a.toRegex? st.level.flags).map st.add
  | .bar => some { st with level := st.level.newBranch }
  | .openGroup .numbered => some (st.enterNumbered none)
  | .openGroup (.named name) =>
    if name ∈ st.names then none else some (st.enterNumbered (some name))
  | .openGroup (.plain change) => some (st.enterPlain change)
  | .directive change => some { st with level := st.level.direct change }
  | .closeGroup =>
    match st.outer with
    | [] => none
    | l :: ls => some { st with level := l.add st.level.close, outer := ls }
  | .count least most reluctant =>
    (st.level.repeatLast? least most reluctant).map fun l => { st with level := l }

/-- The state after all tokens of a text. -/
def readAll? (st : Reading) (s : Text) : Option Reading :=
  match _h : skip st.level.flags.verbose s with
  | [] => some st
  | c :: r =>
    match _ht : readToken st.level.flags.verbose c r with
    | none => none
    | some (t, rest) =>
      match st.next? t with
      | none => none
      | some st' => st'.readAll? rest
termination_by s.length
decreasing_by
  have := length_lt_of_skip _h
  have := readToken_length_le _ht
  omega

theorem readAll?_of_skip_nil {st : Reading} {s : Text} (h : skip st.level.flags.verbose s = []) :
    st.readAll? s = some st := by
  rw [readAll?]
  split
  · rfl
  · next h' =>
    rw [h] at h'
    cases h'

theorem readAll?_of_skip_cons {st : Reading} {c : Char} {s r : Text}
    (h : skip st.level.flags.verbose s = c :: r) :
    st.readAll? s =
      (readToken st.level.flags.verbose c r).bind fun (t, rest) =>
        (st.next? t).bind fun st' => st'.readAll? rest := by
  rw [readAll?]
  split
  · next h' =>
    rw [h] at h'
    cases h'
  · next h' =>
    rw [h] at h'
    cases h'
    split
    · next ht =>
      rw [ht]
      rfl
    · next ht =>
      rw [ht, Option.bind_some]
      dsimp only
      split
      · next hn =>
        rw [hn]
        rfl
      · next hn =>
        rw [hn]
        rfl

theorem readAll?_nil (st : Reading) : st.readAll? [] = some st :=
  readAll?_of_skip_nil (skip_nil _)

/-- The expression of the whole pattern, if no group is left open. -/
def finish? (st : Reading) : Option Regex :=
  match st.outer with
  | [] => some st.level.close
  | _ :: _ => none

end Reading

/-- The expression that a pattern denotes, if it is well formed. -/
def ofPattern? (f : Flags) (s : Text) : Option Regex :=
  ((Reading.start f).readAll? s).bind Reading.finish?

end TextParsing.Regex
