import TextParsing.Grammar

/-!
# Brackets in brackets

A grammar of one rule, which refers to itself: an opening bracket, what the rule reads, and a closing
bracket, or else nothing at all.  Its value is the number of pairs that were read:

    [[[]]]x        depth 3, and the rest is x
    x              depth 0, and the rest is x
    [[]            depth 0, and the rest is [[]

A pair that is not closed is no pair, and neither are those around it.
-/

namespace TextParsing.Brackets

/-- So many pairs of brackets in each other. -/
def text (depth : Nat) : Text := List.replicate depth '[' ++ List.replicate depth ']'

/-- The value that stands for a depth. -/
def depthValue (depth : Nat) : Value := .number depth 0

/-- The depth of a pair, from the values of its three parts. -/
def deepen : Value → Value
  | .tuple [_, .number depth 0, _] => .number (depth + 1) 0
  | _ => .null

/-- The only rule. -/
def self : Fin 1 := Fin.last 0

/-- A pair of brackets around what the rule reads. -/
def pair : Expr 1 :=
  .map deepen (.sequence [.literal ['['], .deferred (.reference self), .literal [']']])

/-- No brackets. -/
def nothing : Expr 1 := .map (fun _ => depthValue 0) (.literal [])

/-- A pair, or nothing. -/
def grammar : Grammar 1 := fun _ => .orElse pair nothing

/-- Reads brackets in brackets. -/
def nested : Parser Value := grammar.parse (.reference self)

end TextParsing.Brackets
