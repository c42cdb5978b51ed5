import TextParsing.Text

/-!
# Values that grammars compute

A `Value` is what a grammar's parsers produce: matched text, words of 64 bits, the lists of
repetitions, the tuples of sequences, and whatever constants the grammar itself supplies.  A `number`
is a decimal fraction, `mantissa` shifted by so many `places`.

    texts v          the texts that occur in a value, from left to right
-/

namespace TextParsing

/-- The value of a parse. -/
inductive Value where
  | null
  | bool (b : Bool)
  | number (mantissa : Int) (places : Nat)
  | text (s : Text)
  | word (n : UInt64)
  | list (items : List Value)
  | tuple (items : List Value)
  | record (fields : List (Text × Value))

namespace Value

mutual

/-- The texts in a value, in order, those inside lists and tuples included. -/
def texts : Value → List Text
  | .text s => [s]
  | .list vs => textsAll vs
  | .tuple vs => textsAll vs
  | _ => []

/-- The texts in a list of values, in order. -/
def textsAll : List Value → List Text
  | [] => []
  | v :: vs => texts v ++ textsAll vs

end

end Value

end TextParsing
