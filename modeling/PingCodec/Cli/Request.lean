import PingCodec.Frame.Report
import PingCodec.Payload.Random
import PingCodec.Ping.Basic

/-!
# Requests to encode

A request to encode a PING names at most one source for its payload: bytes of its own, the shutdown
payload, a user payload or a random one.  Without a source the payload is all zeros.
-/

namespace PingCodec.Cli

/-- Why a command fails. -/
inductive CommandError where
  | frame (e : FrameError)
  | entry (e : EntryError)
  | conflict
  | drawsExhausted
deriving DecidableEq

namespace CommandError

def ofPing : PingError → CommandError
  | .frame e => frame e
  | .entry e => entry e

/-- The name of an error in the debug log. -/
def name : CommandError → String
  | frame _ => "FrameError"
  | entry _ => "RangeError"
  | conflict | drawsExhausted => "Error"

def message : CommandError → String
  | frame e => e.message
  | entry e => e.message
  | conflict => "Choose only one of --payload, --shutdown, --user and --random"
  | drawsExhausted => "draws exhausted"

def line : CommandError → String
  | frame e => e.report.line
  | e => errorLine e.message

end CommandError

/-- A request to encode a PING.  A flag that is left out counts as false. -/
structure EncodeRequest where
  ack : Bool := false
  payload : Option Bytes := none
  shutdown : Option Bool := none
  /-- The tag of the user payload to use. -/
  user : Option UserTag := none
  random : Option Bool := none
deriving DecidableEq

def zeroPayload : Payload := Vector.replicate payloadSize 0

namespace EncodeRequest

/-- The number of sources that a request names. -/
def sourceCount (r : EncodeRequest) : Nat :=
  [r.payload.isSome, r.shutdown == some true, r.user.isSome, r.random == some true].count true

/-- The payload of a request, with the number of draws that it took from those offered. -/
def resolve (r : EncodeRequest) (draws : List Payload) : Except CommandError (Payload × Nat) :=
  if 1 < r.sourceCount then .error .conflict
  else
    match r.payload with
    | some bs =>
      match Payload.ofBytes bs with
      | .ok p => .ok (p, 0)
      | .error e => .error (.frame e)
    | none =>
      if r.shutdown = some true then .ok (shutdownPayload, 0)
      else
        match r.user with
        | some tag => .ok (userPayload tag, 0)
        | none =>
          if r.random = some true then
            match Payload.firstOrdinary? draws with
            | some drawn => .ok drawn
            | none => .error .drawsExhausted
          else .ok (zeroPayload, 0)

end EncodeRequest

end PingCodec.Cli
