import PingCodec.Bytes.View
import PingCodec.Frame.Error
import PingCodec.Number.Rounding

/-!
# Frame headers

A frame header is nine bytes: the payload length in three, the frame type, the flags, and four
bytes for one reserved bit and the 31 bits of a stream identifier, all with the high byte first.
The fields of a header that is to be written are any numbers; writing keeps of each what its place
on the wire can hold.
-/

namespace PingCodec

/-- The number of bytes of a frame header. -/
abbrev headerSize : Nat := 9

/-- The largest payload length that a header can declare. -/
def maxPayloadLength : Nat := 0xffffff

/-- The flag that marks a response. -/
def ackFlag : UInt32 := 0x1

/-- The stream identifier of frames that concern the whole connection. -/
def noStream : Nat := 0

/-- The bits of a stream identifier; the bit in front of them is reserved. -/
def streamIdMask : UInt32 := 0x7fffffff

/-- The fields of a frame header other than the payload length. -/
structure Head where
  kind : Number
  flags : Number
  streamId : Number := Number.ofNat noStream
deriving DecidableEq

namespace Head

/-- Whether the header is one of a frame that concerns the whole connection. -/
def onConnection (h : Head) : Bool := h.streamId.equals (Number.ofNat noStream)

/-- Whether the header is one of a PING. -/
def isPing (h : Head) : Bool := h.kind.equals (Number.ofNat FrameKind.ping.code)

/-- Whether the flag that marks a response is set. -/
def isAck (h : Head) : Bool := h.flags.toWord &&& ackFlag != 0

/-- The header that the wire can hold: the type and the flags modulo `2 ^ 8` and the stream
identifier modulo `2 ^ 31`. -/
def onWire (h : Head) : Head where
  kind := Number.ofNat (h.kind.truncate % 0x100).toNat
  flags := Number.ofNat (h.flags.truncate % 0x100).toNat
  streamId := Number.ofNat (h.streamId.truncate % 0x80000000).toNat

end Head

/-! ## Writing -/

/-- Why a header cannot be written. -/
inductive WriteError where
  | lengthOutOfRange (length : Number)
  /-- The header would start outside the buffer, at the given whole number. -/
  | startOutOfBounds (position : Number)
  | noRoom
deriving DecidableEq

def WriteError.message : WriteError → String
  | lengthOutOfRange length => s!"Payload length out of range: {length.text}"
  | startOutOfBounds position =>
    s!"Start offset {position.text} is outside the bounds of the buffer"
  | noRoom => s!"Invalid DataView length {headerSize}"

/-- The place in its buffer that lies at an offset from the start of a view; a fraction of it does
not count. -/
def View.place (v : View) (offset : Number) : Number :=
  ((Number.ofNat v.start).add offset).withoutFraction

/-- The payload length that a number stands for, if a header can declare it. -/
def payloadLength? (x : Number) : Option Nat := x.toNat?.filter (· ≤ maxPayloadLength)

namespace Head

/-- Store a header in a buffer, field by field. -/
def store (h : Head) (length i : Nat) : StateM Bytes Unit := do
  modify (·.setByte i (length >>> 16).toUInt8)
  modify (·.setWord16 (i + 1) length.toUInt16)
  modify (·.setByte (i + 3) h.kind.toByte)
  modify (·.setByte (i + 4) (h.flags.toWord &&& 0xff).toUInt8)
  modify (·.setWord32 (i + 5) (h.streamId.toWord &&& streamIdMask))

/-- Write a header for a payload of the given length at an offset from the start of a view.  What is
written to is the whole buffer of the view, which alone bounds the place of the header. -/
def put (h : Head) (length : Number) (dst : View) (offset : Number) :
    ExceptT WriteError (StateM Bytes) Unit := do
  match payloadLength? length with
  | none => throw (.lengthOutOfRange length)
  | some n =>
    let size := (← get).length
    let position := dst.place offset
    let i := position.truncate
    if position.isInfinite ∨ i < 0 ∨ size < i then throw (.startOutOfBounds position)
    else if size < i + headerSize then throw .noRoom
    else h.store n i.toNat

/-- The buffer of a view after a header was written at an offset from its start. -/
def write (h : Head) (length : Number) (dst : View) (offset : Number) : Except WriteError Bytes :=
  match (h.put length dst offset).run dst.buffer with
  | (.ok (), buffer) => .ok buffer
  | (.error e, _) => .error e

/-- The nine bytes of a header for a payload of the given length. -/
def encode (h : Head) (length : Number) : Except WriteError Bytes :=
  h.write length (View.whole (Bytes.zeros headerSize)) (Number.ofNat 0)

end Head

/-! ## Reading -/

/-- A header as read from the wire. -/
structure ParsedHead where
  head : Head
  length : Nat
deriving DecidableEq

/-- Read the header at the start of a view; the reserved bit is dropped. -/
def ParsedHead.ofView (v : View) : Except FrameError ParsedHead :=
  if v.length < headerSize then .error (.shortHeader v.length)
  else
    .ok
      { head :=
          { kind := Number.ofByte (v.buffer.byteAt (v.start + 3))
            flags := Number.ofByte (v.buffer.byteAt (v.start + 4))
            streamId := Number.ofNat (v.buffer.word32At (v.start + 5) &&& streamIdMask).toNat }
        length :=
          (v.buffer.byteAt v.start).toNat <<< 16 ||| (v.buffer.word16At (v.start + 1)).toNat }

end PingCodec
