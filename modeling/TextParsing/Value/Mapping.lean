import TextParsing.Value

/-!
# Functions to map over values

Each function is total on values: one that asks for a list, a tuple, a text or a word answers
`null` for a value of any other shape.  Arithmetic on words wraps at 2^64.

A constant that a grammar supplies can be a record that stands for a tuple or for a word: one whose
field `tuple` holds a list has the items of that list (`items?`), one whose field `u64` holds a numeral
is the word of that numeral (`word?`).
-/

namespace TextParsing.Value

/-- The elements of a list or of a tuple. -/
def items? : Value → Option (List Value)
  | .list vs => some vs
  | .tuple vs => some vs
  | .record fields =>
    match fields.lookup "tuple".toList with
    | some (.list vs) => some vs
    | _ => none
  | _ => none

/-- The word in a value that is one. -/
def word? : Value → Option UInt64
  | .word n => some n
  | .record fields =>
    match fields.lookup "u64".toList with
    | some (.text s) => Text.ofNumeral? s
    | _ => none
  | _ => none

/-- The number of characters of a text, or of elements of a list or tuple. -/
def length : Value → Value
  | .text s => .number s.length 0
  | v => match v.items? with
    | some vs => .number vs.length 0
    | none => .null

/-- Element number `i` of a list or tuple, counted from zero. -/
def pick (i : Nat) (v : Value) : Value :=
  match v.items? with
  | some vs => vs.getD i .null
  | none => .null

/-- A record whose only field holds the value. -/
def label (name : Text) (v : Value) : Value := .record [(name, v)]

/-- The next word. -/
def next (v : Value) : Value :=
  match v.word? with
  | some n => .word (n + 1)
  | none => .null

/-- The sum of those elements that are words. -/
def total (v : Value) : Value :=
  match v.items? with
  | some vs => .word ((vs.filterMap word?).foldl (· + ·) 0)
  | none => .null

mutual

/-- The texts and the digits of the words in a value, written one after the other. -/
def joined : Value → Text
  | .text s => s
  | .word n => Text.decimal n.toNat
  | .list vs => joinedAll vs
  | .tuple vs => joinedAll vs
  | .record fields =>
    match word? (.record fields) with
    | some n => Text.decimal n.toNat
    | none => joinedTuple fields
  | _ => []

/-- The texts and digits in a list of values, written one after the other. -/
def joinedAll : List Value → Text
  | [] => []
  | v :: vs => joined v ++ joinedAll vs

/-- The texts and digits in the list that stands in the field `tuple`, written one after the
other. -/
def joinedTuple : List (Text × Value) → Text
  | [] => []
  | (name, v) :: fields =>
    if name = "tuple".toList then
      match v with
      | .list vs => joinedAll vs
      | _ => []
    else joinedTuple fields

end

/-- The text that `joined` writes, as a value. -/
def concat (v : Value) : Value := .text v.joined

end TextParsing.Value
