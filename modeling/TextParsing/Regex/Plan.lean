import TextParsing.Regex

/-!
# Search plans

A `Plan` is what a search follows: an expression without counts, in which repetition is one of two
loops.  `repeated` goes through its body first and then decides whether to go round again; `star`
decides first.  A body that may match the empty text is put into `repeated`, so that the decision
before the first round and those after a round are different places.

    size p                                          is never zero      (size_pos)
-/

namespace TextParsing.Regex

/-- An expression as a search follows it. -/
inductive Plan where
  | empty
  | chars (set : CharSet)
  | look (test : Look)
  | cat (first second : Plan)
  | alt (preferred other : Plan)
  | optional (greedy : Bool) (body : Plan)
  | repeated (greedy : Bool) (body : Plan)
  | star (greedy : Bool) (body : Plan)

namespace Plan

/-- How many labels the places inside a plan take. -/
def size : Plan → Nat
  | empty => 1
  | chars _ => 1
  | look _ => 1
  | cat a b => size a + size b + 1
  | alt a b => size a + size b + 1
  | optional _ a => size a + 1
  | repeated _ a => size a + 2
  | star _ a => size a + 2

theorem size_pos (p : Plan) : 0 < size p := by
  cases p <;> simp [size]

/-- Whether the form of a plan shows that every match begins where the text begins. -/
def anchored : Plan → Bool
  | look test => test == .textStart
  | cat a _ => anchored a
  | alt a b => anchored a && anchored b
  | repeated _ a => anchored a
  | _ => false

/-! ## Unfolding counts -/

/-- The plan `n` times, then `last`. -/
def copies (p : Plan) (last : Plan) : Nat → Plan
  | 0 => last
  | n + 1 => cat p (copies p last n)

/-- The plan up to `n` times. -/
def atMost (greedy : Bool) (p : Plan) : Nat → Plan
  | 0 => empty
  | 1 => optional greedy p
  | n + 1 => optional greedy (cat p (atMost greedy p n))

/-- The plan any number of times; `solid` tells that it never matches the empty text. -/
def anyNumber (greedy solid : Bool) (p : Plan) : Plan :=
  if solid then star greedy p else optional greedy (repeated greedy p)

/-- The plan as often as the bounds say; `solid` tells that it never matches the empty text. -/
def count (greedy solid : Bool) (p : Plan) (least : Nat) : Option Nat → Plan
  | none => match least with
    | 0 => anyNumber greedy solid p
    | n + 1 => copies p (repeated greedy p) n
  | some most =>
    if least < most then copies p (atMost greedy p (most - least)) least
    else match least with
      | 0 => empty
      | n + 1 => copies p p n

end Plan

/-- The plan of an expression. -/
def plan : Regex → Plan
  | empty => .empty
  | chars set _ => .chars set
  | look test => .look test
  | group _ a => plan a
  | cat a b => .cat (plan a) (plan b)
  | alt a b => .alt (plan a) (plan b)
  | times greedy least most a => .count greedy a.isSolid (plan a) least most

end TextParsing.Regex
