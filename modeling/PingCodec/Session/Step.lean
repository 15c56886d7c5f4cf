import PingCodec.Frame.Head
import PingCodec.Session.Store

/-!
# Session steps

A step of a session makes, shows or changes one of the things that the session keeps.  This file
holds the steps, what they show and why they can fail.
-/

namespace PingCodec.Session

/-- What a PING is made from. -/
inductive Source where
  | entries (a : Entries)
  | array (name : String)

inductive Step where
  | array (name : String) (entries : Entries)
  | arraySet (name : String) (index : Fin payloadSize) (value : Number)
  | arrayGet (name : String)
  | bytes (name : String) (content : Bytes)
  /-- Make a byte array that shares a stretch of another one. -/
  | bytesView (name target : String) (first : Int) (last : Option Int)
  | bytesSet (name : String) (index : Int) (value : Number)
  | bytesGet (name : String)
  | fromBytes (array bytes : String)
  | make (ack : Bool) (name : String) (source : Source)
  | load (name : String) (head : Head) (bytes : String)
  | decode (name bytes : String)
  | inspect (name : String)
  /-- Hand out the entries of a PING, not a copy of them. -/
  | payloadOf (name array : String)
  /-- Hand out the payload of a PING as a byte array. -/
  | intoPayload (name bytes : String)
  | equals (left right : String)
  | encode (name sink : String)
  | encodePing (name bytes : String)
  | put (sink bytes : String)
  | contents (sink : String)
  /-- Copy the contents of a sink to a byte array. -/
  | take (sink bytes : String)
  | size (sink : String)
  | clear (sink : String)
  | writeHead (bytes : String) (head : Head) (length offset : Number)
  | parseHead (bytes : String)
  | debug (on : Bool)

/-- What a step shows. -/
inductive Reply where
  | entries (a : Entries)
  | bytes (content : Bytes)
  | ping (p : Ping)
  | truth (value : Bool)
  | count (n : Nat)
  | sink (state : Sink)
  | head (parsed : ParsedHead)
deriving DecidableEq

/-- Why a step fails. -/
inductive Failure where
  | frame (e : FrameError)
  | entry (e : EntryError)
  | write (e : WriteError)
  /-- An entry of a frozen number array was to be written. -/
  | frozen (index : Fin payloadSize)
  | unbound (name : String)
deriving DecidableEq

def Failure.name : Failure → String
  | frame _ => "FrameError"
  | entry _ | write _ => "RangeError"
  | frozen _ => "TypeError"
  | unbound _ => "Error"

def Failure.message : Failure → String
  | frame e => e.message
  | entry e => e.message
  | write e => e.message
  | frozen index =>
    "Cannot assign to read only property '" ++ toString index.val ++ "' of object '[object Array]'"
  | unbound name => s!"nothing under the name {name}"

end PingCodec.Session
