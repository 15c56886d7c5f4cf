/-!
# Blank units

The characters that may stand anywhere between and inside hex digits: the ASCII controls from tab
to carriage return, the space separators, the two line separators and the byte order mark.  Each of
them is one unit of text.
-/

namespace PingCodec.Text

/-- Blank characters as ranges of code points, both ends included. -/
def blankRanges : List (UInt32 × UInt32) :=
  [(0x0009, 0x000d), (0x0020, 0x0020), (0x00a0, 0x00a0), (0x1680, 0x1680), (0x2000, 0x200a),
    (0x2028, 0x2029), (0x202f, 0x202f), (0x205f, 0x205f), (0x3000, 0x3000), (0xfeff, 0xfeff)]

/-- Whether a unit is a blank character. -/
def isBlankUnit (u : UInt16) : Bool :=
  blankRanges.any fun (first, last) => first ≤ u.toUInt32 && u.toUInt32 ≤ last

def compactUnits (us : List UInt16) : List UInt16 := us.filter fun u => !isBlankUnit u

end PingCodec.Text
