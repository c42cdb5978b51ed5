import TextParsing.Regex
import TextParsing.Regex.Flags
import TextParsing.Unicode.CaseFold
import TextParsing.Unicode.WhiteSpace

/-!
# Character classes

A `ClassSet` is the syntax of what stands between brackets.  `ClassSet.toCharSet` is its meaning
under the flags in force.  Case is folded at every bracket and on both sides of a set operation,
before a negation is carried out.

Without Unicode a class may hold ASCII characters only, `ClassSet.allowed`.
-/

namespace TextParsing.Regex

/-- The set, or the characters that are not in it. -/
def negateIf (negated : Bool) (s : CharSet) : CharSet := if negated then s.compl else s

/-! ## Named classes -/

/-- The classes with one-letter names. -/
inductive LetterClass where
  | digit
  | space
  | word
  deriving DecidableEq, Repr

/-- The digits, blanks and word characters of ASCII. -/
def LetterClass.ascii : LetterClass → CharSet
  | .digit => .range '0' '9'
  | .space => .unionAll [.range '\t' '\r', .single ' ']
  | .word => .unionAll [.range '0' '9', .range 'A' 'Z', .single '_', .range 'a' 'z']

/-- The characters of the class, in Unicode or in ASCII only. -/
def LetterClass.toCharSet (unicode : Bool) : LetterClass → CharSet
  | .digit => if unicode then Unicode.digitChars else ascii .digit
  | .space => if unicode then Unicode.whiteSpace else ascii .space
  | .word => if unicode then Unicode.wordChars else ascii .word

/-- The ASCII classes that are written by name between colons. -/
inductive PosixClass where
  | alnum
  | alpha
  | ascii
  | blank
  | cntrl
  | digit
  | graph
  | lower
  | print
  | punct
  | space
  | upper
  | word
  | xdigit
  deriving DecidableEq, Repr

namespace PosixClass

/-- The class of a name. -/
def ofName? (name : Text) : Option PosixClass :=
  [("alnum", alnum), ("alpha", alpha), ("ascii", ascii), ("blank", blank), ("cntrl", cntrl),
    ("digit", digit), ("graph", graph), ("lower", lower), ("print", print), ("punct", punct),
    ("space", space), ("upper", upper), ("word", word), ("xdigit", xdigit)].findSome?
      fun entry => if entry.1.toList = name then some entry.2 else none

/-- The characters of the class. -/
def toCharSet : PosixClass → CharSet
  | alnum => .unionAll [.range '0' '9', .range 'A' 'Z', .range 'a' 'z']
  | alpha => .unionAll [.range 'A' 'Z', .range 'a' 'z']
  | ascii => .range '\x00' '\x7F'
  | blank => .ofList ['\t', ' ']
  | cntrl => .unionAll [.range '\x00' '\x1F', .single '\x7F']
  | digit => .range '0' '9'
  | graph => .range '!' '~'
  | lower => .range 'a' 'z'
  | print => .range ' ' '~'
  | punct => .unionAll [.range '!' '/', .range ':' '@', .range '[' '\u0060', .range '\x7B' '~']
  | space => LetterClass.ascii .space
  | upper => .range 'A' 'Z'
  | word => LetterClass.ascii .word
  | xdigit => .unionAll [.range '0' '9', .range 'A' 'F', .range 'a' 'f']

end PosixClass

/-! ## Bracketed classes -/

/-- The operations on sets that can be written inside brackets. -/
inductive SetOp where
  | intersection
  | difference
  | symmetricDifference
  deriving DecidableEq, Repr

/-- The result of an operation. -/
def SetOp.apply : SetOp → CharSet → CharSet → CharSet
  | .intersection => CharSet.inter
  | .difference => CharSet.diff
  | .symmetricDifference => CharSet.symmDiff

/-- What is written between brackets. -/
inductive ClassSet where
  | nothing
  | single (c : Char)
  | range (first last : Char)
  | letter (name : LetterClass) (negated : Bool)
  | posix (name : PosixClass) (negated : Bool)
  | union (a b : ClassSet)
  | op (operation : SetOp) (a b : ClassSet)
  | bracket (negated : Bool) (a : ClassSet)
  deriving Repr

/-- The set with every ASCII letter whose other form it contains. -/
def closeAsciiCase (s : CharSet) : CharSet :=
  s.union (.ofList (("abcdefghijklmnopqrstuvwxyz".toList.map fun c => [c.toUpper, c]).filter
    fun v => v.any s.contains).flatten)

/-- A set of characters under the flags in force: if case is ignored, every variant of a member
belongs to it. -/
def fold (f : Flags) (s : CharSet) : CharSet :=
  if f.ignoreCase then if f.unicode then Unicode.closeCase s else closeAsciiCase s else s

namespace ClassSet

/-- The characters of a class under the flags in force. -/
def toCharSet (f : Flags) : ClassSet → CharSet
  | nothing => .none
  | single c => .single c
  | range first last => .range first last
  | letter name negated => negateIf negated (name.toCharSet f.unicode)
  | posix name negated => negateIf negated (fold f name.toCharSet)
  | union a b => (a.toCharSet f).union (b.toCharSet f)
  | op operation a b => operation.apply (fold f (a.toCharSet f)) (fold f (b.toCharSet f))
  | bracket negated a => negateIf negated (fold f (a.toCharSet f))

/-- Whether a class holds ASCII characters only, whatever the flags: it names no other character
and negates nothing. -/
def asciiOnly : ClassSet → Bool
  | nothing => true
  | single c => c.toNat < 0x80
  | range first last => first.toNat < 0x80 && last.toNat < 0x80
  | letter _ negated => !negated
  | posix _ negated => !negated
  | union a b => a.asciiOnly && b.asciiOnly
  | op _ a b => a.asciiOnly && b.asciiOnly
  | bracket negated a => !negated && a.asciiOnly

/-- Whether a class may be used under the flags in force. -/
def allowed (f : Flags) (s : ClassSet) : Bool := f.unicode || s.asciiOnly

end ClassSet

end TextParsing.Regex
