import PingCodec.Number.Hexadecimal
import PingCodec.Bytes.Basic

/-!
# Writing hex

Each value is written in base sixteen with at least two digits, so that a byte string comes out as
two lowercase digits a byte.
-/

namespace PingCodec.Hex

/-- The digits of one value, filled up with zeros on the left to two. -/
def digitsOf (x : Number) : List Char := x.hexDigits.leftpad 2 '0'

/-- The hex text of a list of values. -/
def encode (values : List Number) : String := String.ofList (values.flatMap digitsOf)

def ofBytes (bs : Bytes) : String := encode (bs.map Number.ofByte)

end PingCodec.Hex
