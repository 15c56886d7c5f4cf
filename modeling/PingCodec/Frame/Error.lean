import PingCodec.Frame.Kind
import PingCodec.Number.Decimal
import PingCodec.Number.Hexadecimal

/-!
# Frame errors

What a peer can do wrong in a frame.  Each error has a cause, a numbered code that the cause falls
under, and the reason that the connection has to give when it is closed over it.
-/

namespace PingCodec

/-! ## Reasons -/

/-- The reason given when a connection is closed. -/
inductive Reason where
  | protocolError
  | frameSizeError
deriving DecidableEq

namespace Reason

def all : List Reason := [protocolError, frameSizeError]

def code : Reason → Nat
  | protocolError => 0x1
  | frameSizeError => 0x6

def ofCode? (code : Int) : Option Reason := all.find? fun r => r.code == code

def name : Reason → String
  | protocolError => "PROTOCOL_ERROR"
  | frameSizeError => "FRAME_SIZE_ERROR"

end Reason

/-! ## Codes -/

/-- The class of a frame error. -/
inductive ErrorCode where
  | invalidStreamId
  | badFrameSize
  | incompleteHeader
  | unexpectedKind
deriving DecidableEq

namespace ErrorCode

def all : List ErrorCode := [invalidStreamId, badFrameSize, incompleteHeader, unexpectedKind]

def code : ErrorCode → Nat
  | invalidStreamId => 1
  | badFrameSize => 2
  | incompleteHeader => 3
  | unexpectedKind => 4

def ofCode? (code : Int) : Option ErrorCode := all.find? fun c => c.code == code

def name : ErrorCode → String
  | invalidStreamId => "ERR_INVALID_STREAM_ID"
  | badFrameSize => "ERR_BAD_FRAME_SIZE"
  | incompleteHeader => "ERR_INCOMPLETE_HEADER"
  | unexpectedKind => "ERR_UNEXPECTED_KIND"

/-- What a code means, in a few words. -/
def description : ErrorCode → String
  | invalidStreamId => "Invalid stream identifier"
  | badFrameSize => "Bad frame size"
  | incompleteHeader => "Incomplete frame header"
  | unexpectedKind => "Unexpected frame type"

/-- Wrong sizes are frame size errors, all else is a protocol error. -/
def reason : ErrorCode → Reason
  | badFrameSize | incompleteHeader => .frameSizeError
  | invalidStreamId | unexpectedKind => .protocolError

end ErrorCode

/-! ## Causes -/

/-- Why a frame is refused. -/
inductive FrameError where
  | onStream (id : Number)
  | payloadSize (actual : Nat)
  /-- The header declares another number of payload bytes than follow it. -/
  | declaredSize (declared actual : Nat)
  | shortHeader (actual : Nat)
  | notPing (kind : Number)
deriving DecidableEq

namespace FrameError

/-- The code that a cause falls under. -/
def code : FrameError → ErrorCode
  | onStream _ => .invalidStreamId
  | payloadSize _ | declaredSize _ _ => .badFrameSize
  | shortHeader _ => .incompleteHeader
  | notPing _ => .unexpectedKind

/-- The reason that the connection has to give. -/
def reason (e : FrameError) : Reason := e.code.reason

def message : FrameError → String
  | onStream id => s!"PING frame on stream {id.text}"
  | payloadSize actual => s!"PING payload must be 8 bytes, got {actual}"
  | declaredSize declared actual => s!"Header declares {declared} payload bytes, got {actual}"
  | shortHeader actual => s!"Frame header needs 9 bytes, got {actual}"
  | notPing kind => s!"Expected PING frame (0x6), got 0x{String.ofList kind.hexDigits}"

end FrameError

end PingCodec
