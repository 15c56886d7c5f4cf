import PingCodec.Hex.Decode
import PingCodec.Payload.Class

/-!
# Arguments

What may stand as the value of an option or as an argument of a command.
-/

namespace PingCodec.Cli

/-- Why a text is not what an option or a command asks for. -/
inductive ArgumentError where
  | notUserTag (text : String)
  | notHex (text : String)
  /-- The text passed for hex and has a fault all the same. -/
  | badHex (e : Hex.DecodeError)
deriving DecidableEq

def ArgumentError.message : ArgumentError → String
  | notUserTag text => s!"User ping id must be 0 or 1, got \"{text}\""
  | notHex text => s!"Not a hex byte string: \"{text}\""
  | badHex e => e.message

/-- The tag of a user ping, which is written as one digit. -/
def parseUserTag (text : String) : Except ArgumentError UserTag :=
  if text = "0" then .ok 0 else if text = "1" then .ok 1 else .error (.notUserTag text)

/-- The bytes that units spell, or the given refusal where they are not hex. -/
def parseHexUnits (refusal : ArgumentError) (us : List UInt16) : Except ArgumentError Bytes :=
  if Hex.isValidUnits us then (Hex.decodeUnits us).mapError .badHex else .error refusal

def parseHex (text : String) : Except ArgumentError Bytes :=
  parseHexUnits (.notHex text) (Text.units text.toList)

end PingCodec.Cli
