/-!
White space as the Unicode property White_Space lists it, and trimming by it.
-/

namespace Cadence.Text

/-- The code points that have the property White_Space. -/
def blanks : List Nat :=
  [0x9, 0xA, 0xB, 0xC, 0xD, 0x20, 0x85, 0xA0, 0x1680,
    0x2000, 0x2001, 0x2002, 0x2003, 0x2004, 0x2005, 0x2006, 0x2007, 0x2008, 0x2009, 0x200A,
    0x2028, 0x2029, 0x202F, 0x205F, 0x3000]

def isBlank (c : Char) : Bool :=
  blanks.contains c.toNat

def trimStart (text : List Char) : List Char :=
  text.dropWhile isBlank

/-- Text without the white space at both ends. -/
def trim (text : List Char) : List Char :=
  (trimStart (trimStart text).reverse).reverse

end Cadence.Text
