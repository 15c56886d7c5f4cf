/-!
# UTF-16 units

Lengths and positions in text are counted in UTF-16 units: a character outside the basic plane
counts as two, a high and a low surrogate.
-/

namespace PingCodec.Text

/-- The UTF-16 units of a character. -/
def unitsOfChar (c : Char) : List UInt16 :=
  if c.val < 0x10000 then [c.val.toUInt16]
  else
    let offset : UInt32 := c.val - 0x10000
    [(0xd800 : UInt16) + (offset >>> 10).toUInt16, (0xdc00 : UInt16) + (offset &&& 0x3ff).toUInt16]

def units (cs : List Char) : List UInt16 := cs.flatMap unitsOfChar

end PingCodec.Text
