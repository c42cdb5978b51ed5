import TextParsing.Regex.Syntax

/-!
# How deep a pattern is nested

A group, a repetition and a bracketed class stand one level above what is inside them, and a sequence,
a choice or a union of at least two parts stands one level above its parts.  `nesting f s` is the number
of levels of the pattern `s`.
-/

namespace TextParsing.Regex

/-- The levels over the depths of some parts; a single part needs no level of its own. -/
def depthOver : List Nat → Nat
  | [] => 0
  | [d] => d
  | ds => ds.foldl max 0 + 1

/-! ## Classes -/

mutual

/-- The depth of what is written between brackets. -/
def ClassSet.depth : ClassSet → Nat
  | .union a b => depthOver (b.depth :: a.itemDepths)
  | .op _ a b => max a.depth b.depth + 1
  | .bracket _ a => a.depth + 1
  | _ => 0

/-- The depths of the items of a union. -/
def ClassSet.itemDepths : ClassSet → List Nat
  | .nothing => []
  | .union a b => b.depth :: a.itemDepths
  | .op _ a b => [max a.depth b.depth + 1]
  | .bracket _ a => [a.depth + 1]
  | _ => [0]

end

/-- The depth of an expression without parts. -/
def Atom.depth : Atom → Nat
  | .bracketed set => set.depth
  | _ => 0

/-! ## Levels -/

/-- The depths on a level that is being read: those of the pieces of the current branch, the last one
first, and those of the branches before it. -/
structure Depths where
  pieces : List Nat
  branches : List Nat

namespace Depths

/-- The level at its beginning. -/
def start : Depths := ⟨[], []⟩

/-- The level with one more piece. -/
def add (l : Depths) (depth : Nat) : Depths := { l with pieces := depth :: l.pieces }

/-- The level after a bar. -/
def newBranch (l : Depths) : Depths := ⟨[], depthOver l.pieces :: l.branches⟩

/-- The depth of what is inside the level. -/
def body (l : Depths) : Nat := depthOver (depthOver l.pieces :: l.branches)

/-- The level with its last piece repeated. -/
def repeatLast (l : Depths) : Depths :=
  match l.pieces with
  | [] => l
  | d :: ds => { l with pieces := (d + 1) :: ds }

/-- The level and those around it, after one more token. -/
def next (levels : Depths × List Depths) (t : Token) : Depths × List Depths :=
  let (l, outer) := levels
  match t with
  | .atom a => (l.add a.depth, outer)
  | .bar => (l.newBranch, outer)
  | .openGroup _ => (start, l :: outer)
  | .directive _ => (l.add 0, outer)
  | .closeGroup =>
    match outer with
    | [] => (l, [])
    | o :: outer => (o.add (l.body + 1), outer)
  | .count _ _ _ => (l.repeatLast, outer)

end Depths

/-! ## Patterns -/

/-- The tokens of a text, up to the first place where it cannot be read. -/
def Reading.tokens (st : Reading) (s : Text) : List Token :=
  match _h : skip st.level.flags.verbose s with
  | [] => []
  | c :: r =>
    match _ht : readToken st.level.flags.verbose c r with
    | none => []
    | some (t, rest) =>
      match st.next? t with
      | none => []
      | some st' => t :: st'.tokens rest
termination_by s.length
decreasing_by
  have := length_lt_of_skip _h
  have := readToken_length_le _ht
  omega

/-- The number of levels of a pattern. -/
def nesting (f : Flags) (s : Text) : Nat :=
  (((Reading.start f).tokens s).foldl Depths.next (.start, [])).1.body

/-- The number of levels that a pattern may have. -/
def nestingLimit : Nat := 250

end TextParsing.Regex
