import PingCodec.Log
import PingCodec.Ping.Basic
import PingCodec.Sink

/-!
# PING frames

A PING on the wire is a header and the payload, seventeen bytes in one piece.  Reading takes a frame
apart and refuses it over the first thing that is wrong with it: the header, the frame type, the
stream, the declared length, the payload size.
-/

namespace PingCodec.Ping

/-! ## Writing -/

/-- The header of a PING. -/
def head (p : Ping) : Head where
  kind := Number.ofNat FrameKind.ping.code
  flags := Number.ofNat (if p.ack then ackFlag.toNat else 0)
  streamId := Number.ofNat noStream

/-- A frame to be filled in. -/
def blankFrame : View := View.whole (Bytes.zeros (headerSize + payloadSize))

/-- The header of a PING is never refused. -/
theorem isSome_write_head (p : Ping) :
    (p.head.write (Number.ofNat payloadSize) blankFrame (Number.ofNat 0)).toOption.isSome = true := by
  have either (ack : Bool) :
      (Head.write ⟨Number.ofNat FrameKind.ping.code, Number.ofNat (if ack then ackFlag.toNat else 0),
        Number.ofNat noStream⟩ (Number.ofNat payloadSize) blankFrame
        (Number.ofNat 0)).toOption.isSome = true := by
    cases ack <;> decide +kernel
  exact either p.ack

/-- The frame of a PING: the header is written at the front of an empty frame, the payload behind
it. -/
def frame (p : Ping) : Bytes :=
  let written := p.head.write (Number.ofNat payloadSize) blankFrame (Number.ofNat 0)
  (written.toOption.get p.isSome_write_head).overwrite headerSize p.payloadBytes

/-- Encode a PING to a sink; the sink gets the frame in one piece. -/
def encode {σ : Type} [ByteSink σ] (log : Logger) (p : Ping) (dst : σ) : σ × List Event :=
  (ByteSink.put dst p.frame, log.record (.encoding p.ack payloadSize))

/-- Encode a PING by itself. -/
def toFrame (log : Logger) (p : Ping) : Bytes × List Event :=
  let (buffer, events) := p.encode log ({} : ByteBuffer)
  (buffer.toBytes, events)

/-! ## Reading -/

/-- The PING whose frame a view holds, no byte more and no byte less. -/
def ofFrame (v : View) : Except PingError Ping :=
  match ParsedHead.ofView v with
  | .error e => .error (.frame e)
  | .ok ⟨head, length⟩ =>
    let payload := v.drop headerSize
    if !head.isPing then .error (.frame (.notPing head.kind))
    else if !head.onConnection then .error (.frame (.onStream head.streamId))
    else if payload.length ≠ length then .error (.frame (.declaredSize length payload.length))
    else load head payload

end PingCodec.Ping
