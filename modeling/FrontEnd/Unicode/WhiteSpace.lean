/-
The characters with the Unicode property `White_Space`.

Blanks between tokens, and what is trimmed off the end of a displayed line, are
runs of these.
-/
import FrontEnd.Unicode.Ranges

namespace FrontEnd.Unicode

/-- Code points with the property `White_Space`, Unicode 16. -/
def whiteSpaceRanges : Ranges :=
  [(0x9, 0xD), (0x20, 0x20), (0x85, 0x85), (0xA0, 0xA0), (0x1680, 0x1680), (0x2000, 0x200A),
   (0x2028, 0x2029), (0x202F, 0x202F), (0x205F, 0x205F), (0x3000, 0x3000)]

/-- The character has the property `White_Space`. -/
def isWhiteSpace (c : Char) : Bool := inRanges c.toNat whiteSpaceRanges

end FrontEnd.Unicode
