import PingCodec.Frame.Head
import PingCodec.Payload.Class

/-!
# PINGs

A PING is a probe or the response to one, with eight entries that the response echoes.  It keeps the
numbers that it was made from, after a check that they are bytes; every way to make one goes through
that check.
-/

namespace PingCodec

/-- A PING. -/
structure Ping where
  ack : Bool
  entries : Entries
deriving DecidableEq

/-- Why a PING cannot be made from a frame. -/
inductive PingError where
  | frame (e : FrameError)
  | entry (e : EntryError)
deriving DecidableEq

namespace Ping

/-! ## Making -/

/-- The PING with the given entries, which must be bytes. -/
def ofEntries (ack : Bool) (a : Entries) : Except EntryError Ping := a.check.map fun _ => ⟨ack, a⟩

/-- A probe. -/
def probe (a : Entries) : Except EntryError Ping := ofEntries false a

/-- The response to a probe. -/
def pong (a : Entries) : Except EntryError Ping := ofEntries true a

/-- The PING with a header that was split off before and the payload that a view holds.  The stream
is looked at before the size; of the flags only the one that marks a response counts. -/
def load (h : Head) (payload : View) : Except PingError Ping :=
  if h.onConnection then
    match Payload.ofView payload with
    | .ok p => (ofEntries h.isAck p.entries).mapError .entry
    | .error e => .error (.frame e)
  else .error (.frame (.onStream h.streamId))

/-! ## Using -/

def payloadBytes (p : Ping) : Bytes := p.entries.toList.map Number.toByte

/-- The tag of a user ping. -/
def userTag? (p : Ping) : Option Number := p.entries.userTag?

/-- Whether the PING announces a shutdown. -/
def isShutdown (p : Ping) : Bool := p.entries.isShutdown

/-- Whether two PINGs are of the same sort and carry equal entries. -/
def equals (p q : Ping) : Bool := p.ack == q.ack && p.entries.equals q.entries

end Ping

end PingCodec
