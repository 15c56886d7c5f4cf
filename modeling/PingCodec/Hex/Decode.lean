import PingCodec.Bytes.Basic
import PingCodec.Text.Blank
import PingCodec.Text.Units

/-!
# Reading hex

Hex text is read in pairs of digits, upper or lower case, with blanks left out of account wherever
they stand.  It is read by its UTF-16 units, which need not make up a well-formed text, and positions
count those that are no blanks.
-/

namespace PingCodec.Hex

/-- Why a text is not hex. -/
inductive DecodeError where
  | oddLength
  /-- The pair at this position holds something other than two digits. -/
  | badPair (position : Nat)
deriving DecidableEq

def DecodeError.message : DecodeError → String
  | oddLength => "Invalid hex string: odd length"
  | badPair position => s!"Invalid hex character at position {position}"

def digitValue? (u : UInt16) : Option UInt8 :=
  if 0x30 ≤ u ∧ u ≤ 0x39 then some (u - 0x30).toUInt8
  else if 0x61 ≤ u ∧ u ≤ 0x66 then some (u - 0x61 + 10).toUInt8
  else if 0x41 ≤ u ∧ u ≤ 0x46 then some (u - 0x41 + 10).toUInt8
  else none

def isDigit (u : UInt16) : Bool := (digitValue? u).isSome

/-- Read pairs of digits, the first of them at the given position. -/
def decodePairs (position : Nat) : List UInt16 → Except DecodeError Bytes
  | high :: low :: rest =>
    match digitValue? high, digitValue? low with
    | some h, some l => (decodePairs (position + 2) rest).map ((h <<< 4 ||| l) :: ·)
    | _, _ => .error (.badPair position)
  | _ => .ok []

/-- The bytes that units spell. -/
def decodeUnits (us : List UInt16) : Except DecodeError Bytes :=
  let cs := Text.compactUnits us
  if cs.length % 2 = 1 then .error .oddLength else decodePairs 0 cs

/-- Whether units are hex: digits only, in an even number. -/
def isValidUnits (us : List UInt16) : Bool :=
  let cs := Text.compactUnits us
  cs.length % 2 == 0 && cs.all isDigit

/-- The bytes that a hex text spells. -/
def decode (text : String) : Except DecodeError Bytes := decodeUnits (Text.units text.toList)

/-- Whether a text is hex. -/
def isValid (text : String) : Bool := isValidUnits (Text.units text.toList)

end PingCodec.Hex
