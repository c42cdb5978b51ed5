import TextParsing.ParseError

/-!
# Reports: a failure shown in its source

A `Position` is a line, counted from one, and a number of bytes within it.  `Position.ofOffset`
finds it by walking along the source and noting each newline that lies wholly before the offset.
`Report.render` prints the position and the message, then up to two lines on either side of the
failing line, with a pointer under the latter.
-/

namespace TextParsing

/-- A line, counted from one, and a number of bytes from its start. -/
structure Position where
  line : Nat
  byteOffset : Nat
  deriving DecidableEq, Repr

namespace Position

/-- The walk behind `ofOffset`: the next character of the source starts at byte `here`, on line
`line`, which starts at byte `lineStart`. -/
def walk (offset : Nat) (line lineStart here : Nat) : Text → Position
  | [] => ⟨line, offset - lineStart⟩
  | c :: s =>
    if offset ≤ here then ⟨line, offset - lineStart⟩
    else if c = '\n' then walk offset (line + 1) (here + 1) (here + 1) s
    else walk offset line lineStart (here + c.utf8Size) s

/-- The position of a byte of the source. -/
def ofOffset (source : Text) (offset : Nat) : Position := walk offset 1 0 0 source

end Position

/-- A failure message together with the source and the byte at which parsing stopped. -/
structure Report where
  message : Text
  source : Text
  offset : Nat

/-- The report of an error against the source that was being parsed. -/
def ParseError.report (e : ParseError) (source : Text) : Report :=
  ⟨e.message, source, e.offsetIn source⟩

namespace Report

/-- Where parsing stopped. -/
def position (r : Report) : Position := Position.ofOffset r.source r.offset

/-- How many lines are shown on either side of the failing one. -/
def contextRadius : Nat := 2

/-- What stands before the content of a shown line. -/
def margin (marked : Bool) (line : Nat) : Text :=
  (if marked then "  > ".toList else "    ".toList) ++ Text.decimal line ++ " | ".toList

/-- The pointer under byte `column` of a line whose margin is `lead`. -/
def pointer (lead : Text) (column : Nat) : Text :=
  List.replicate (Text.byteLength lead + column) ' ' ++ "^--- here".toList

/-- The shown form of source line number `line`: nothing outside the window around the failing
line, and a pointer after the failing line itself. -/
def showLine (p : Position) (line : Nat) (content : Text) : List Text :=
  if line < p.line - contextRadius ∨ p.line + contextRadius < line then []
  else if line = p.line then
    let lead := margin true line
    [lead ++ content, pointer lead p.byteOffset]
  else [margin false line ++ content]

/-- The shown lines among `lines`, the first of which has number `line`. -/
def showLines (p : Position) (line : Nat) : List Text → List Text
  | [] => []
  | content :: lines => showLine p line content ++ showLines p (line + 1) lines

/-- The first line of a report. -/
def header (r : Report) : Text :=
  "Parse error at line ".toList ++ Text.decimal r.position.line ++
    ", byte offset ".toList ++ Text.decimal r.position.byteOffset ++ ": ".toList ++ r.message

/-- The lines of a report. -/
def lines (r : Report) : List Text :=
  r.header :: [] :: showLines r.position 1 (Text.splitLines r.source)

/-- The whole text of a report; every line ends with a newline. -/
def render (r : Report) : Text := r.lines.flatMap (· ++ ['\n'])

end Report

end TextParsing
