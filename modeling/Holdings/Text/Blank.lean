/-!
# Blanks: the white space of Unicode

The characters with the property White_Space: the five controls U+0009 to U+000D, the space, the
next-line control U+0085, the no-break space U+00A0, the Ogham space U+1680, the spaces U+2000 to
U+200A, the separators U+2028 and U+2029, and U+202F, U+205F and U+3000.
-/

namespace Holdings

/-- The code points of the blanks. -/
def blankPoints : List Nat :=
  [0x09, 0x0A, 0x0B, 0x0C, 0x0D, 0x20, 0x85, 0xA0, 0x1680, 0x2000, 0x2001, 0x2002, 0x2003, 0x2004,
    0x2005, 0x2006, 0x2007, 0x2008, 0x2009, 0x200A, 0x2028, 0x2029, 0x202F, 0x205F, 0x3000]

/-- A character of white space. -/
def isBlank (c : Char) : Bool := blankPoints.contains c.toNat

/-- The text without the blanks it starts with. -/
def skipBlanks (cs : List Char) : List Char := cs.dropWhile isBlank

end Holdings
