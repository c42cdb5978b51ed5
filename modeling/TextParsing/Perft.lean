import TextParsing.Grammar
import TextParsing.Value.Mapping

/-!
# Perft records

A perft record names a chess position and tells how many nodes its tree of moves has at several
depths.  Records are written line by line; blank lines and lines that begin with `#` may stand
before the first of them and after each:

    # comment

    id 0
    epd <position>
    perft <depth> <nodes>
    ...

`render` writes records, `records` reads them with a grammar without rules.
-/

namespace TextParsing.Perft

/-! ## Writing -/

/-- A position and the number of nodes at several depths. -/
structure Record where
  id : Text
  epd : Text
  cases : List (UInt64 × UInt64)
  id_line : '\n' ∉ id
  epd_line : '\n' ∉ epd
  epd_length : 2 ≤ epd.length
  cases_length : 2 ≤ cases.length

/-- A line that is passed over. -/
inductive Filler where
  | blank
  | comment (content : Text) (line : '\n' ∉ content)

/-- A line with its end. -/
def line (content : Text) : Text := content ++ ['\n']

/-- The line of a depth and its number of nodes. -/
def caseText (c : UInt64 × UInt64) : Text :=
  line ("perft ".toList ++ Text.decimal c.1.toNat ++ [' '] ++ Text.decimal c.2.toNat)

/-- The lines of a record. -/
def Record.text (r : Record) : Text :=
  line ("id ".toList ++ r.id) ++ line ("epd ".toList ++ r.epd) ++ r.cases.flatMap caseText

/-- The line that is passed over. -/
def Filler.text : Filler → Text
  | blank => line []
  | comment content _ => line (['#'] ++ content)

/-- A record with the lines that follow it before the next one. -/
structure Entry where
  record : Record
  after : List Filler

/-- The lines of a record and of what follows it. -/
def Entry.text (e : Entry) : Text := e.record.text ++ e.after.flatMap Filler.text

/-- Records, each with what follows it, behind the lines before the first. -/
def render (before : List Filler) (entries : List Entry) : Text :=
  before.flatMap Filler.text ++ entries.flatMap Entry.text

/-! ## Reading -/

/-- The value that stands for a depth and its number of nodes. -/
def caseValue (c : UInt64 × UInt64) : Value := .tuple [.word c.1, .word c.2]

/-- The value with these parts of a record. -/
def recordValue (id epd cases : Value) : Value :=
  .record [("id".toList, id), ("epd".toList, epd), ("cases".toList, cases)]

/-- The value of a line that is passed over. -/
def Filler.value : Filler → Value
  | blank => .text ['\n']
  | comment content _ => .text content

/-- The value that stands for a record. -/
def Record.value (r : Record) : Value :=
  recordValue (.text r.id) (.text r.epd) (.list (r.cases.map caseValue))

/-- Whether a character is part of a line. -/
def inLine (c : Char) : Bool := c != '\n'

/-- The number of a record, without the end of the line. -/
def idLine : Expr 0 := .map (Value.pick 1) (.sequence [.literal "id ".toList, .charRun 0 inLine])

/-- The position of a record, without the end of the line. -/
def epdLine : Expr 0 := .map (Value.pick 1) (.sequence [.literal "epd ".toList, .longRun inLine])

/-- A depth and its number of nodes. -/
def caseLine : Expr 0 :=
  .map (fun v => .tuple [v.pick 1, v.pick 3])
    (.sequence [.literal "perft ".toList, .number, .literal [' '], .number, .newline])

/-- A comment. -/
def comment : Expr 0 :=
  .map (Value.pick 1) (.sequence [.literal ['#'], .upTo ['\n'], .newline])

/-- A line that is passed over. -/
def ignored : Expr 0 := .orElse comment .newline

/-- A record, and the lines after it that are passed over. -/
def record : Expr 0 :=
  .map (fun v => recordValue (v.pick 0) (v.pick 2) (v.pick 4))
    (.sequence [idLine, .newline, epdLine, .newline, .several caseLine, .many ignored])

/-- The parser of an expression that refers to no rule. -/
def parse (e : Expr 0) : Parser Value := Grammar.parse (fun i => i.elim0) e

/-- Passes lines over and reads two records or more. -/
def records : Parser Value := fun input => (parse (.many ignored) input).bind fun
  | .success _ rest => parse (.several record) rest
  | .failure e => some (.failure e)

theorem parse_eq (e : Expr 0) : parse e = e.parser (fun i => i.elim0) := by
  funext input
  have hrules (d : Nat) : Grammar.rule (fun i => i.elim0) d = fun i : Fin 0 => i.elim0 :=
    funext fun i => i.elim0
  rw [parse, Grammar.parse, hrules]

end TextParsing.Perft
