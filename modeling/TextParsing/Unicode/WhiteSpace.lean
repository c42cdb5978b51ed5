import TextParsing.CharSet

/-!
# The property White_Space (Unicode 17)
-/

namespace TextParsing.Unicode

/-- The characters with the property White_Space. -/
def whiteSpace : CharSet := .ofCodes
  [(0x09, 0x0D), (0x20, 0x20), (0x85, 0x85), (0xA0, 0xA0), (0x1680, 0x1680), (0x2000, 0x200A),
    (0x2028, 0x2029), (0x202F, 0x202F), (0x205F, 0x205F), (0x3000, 0x3000)]

/-- Whether a character is white space. -/
def isWhiteSpace (c : Char) : Bool := whiteSpace.contains c

end TextParsing.Unicode
