import PingCodec.Bytes.View
import PingCodec.Log
import PingCodec.Ping.Basic
import PingCodec.Sink

/-!
# Session stores

A session keeps PINGs, number arrays, byte arrays and sinks under names.  What can be written to
lies in numbered cells, and names refer to cells: byte arrays are stretches of shared buffers, the
payload of a PING is a frozen number array that any number of names can refer to, and a byte buffer
collects its bytes in a buffer that no byte array refers to.
-/

namespace PingCodec

/-! ## Names -/

abbrev Bindings (α : Type) := List (String × α)

namespace Bindings

variable {α : Type}

def find? (bindings : Bindings α) (name : String) : Option α := bindings.lookup name

/-- Put a thing under a name, in place of what was there. -/
def bind (bindings : Bindings α) (name : String) (x : α) : Bindings α :=
  (name, x) :: bindings.filter fun b => b.1 != name

theorem find?_bind_self (bindings : Bindings α) (name : String) (x : α) :
    (bindings.bind name x).find? name = some x := by
  simp [bind, find?]

theorem find?_bind_of_ne (bindings : Bindings α) {name other : String} (x : α)
    (h : other ≠ name) : (bindings.bind name x).find? other = bindings.find? other := by
  simp only [bind, find?, List.lookup_cons, beq_false_of_ne h]
  induction bindings with
  | nil => rfl
  | cons b rest ih =>
    obtain ⟨key, y⟩ := b
    by_cases hk : key = name
    · subst hk
      simpa [List.lookup_cons, beq_false_of_ne h] using ih
    · have hb : ((key, y).1 != name) = true := by simpa using hk
      rw [List.filter_cons, if_pos hb, List.lookup_cons, List.lookup_cons, ih]

end Bindings

namespace Session

/-! ## Stores -/

/-- A number array of payload size.  One that belongs to a PING is frozen. -/
structure NumberArray where
  entries : Entries
  /-- Whether the numbers are fixed for good. -/
  frozen : Bool
deriving DecidableEq

/-- A PING of a session; its payload is one of the number arrays of the session. -/
structure PingRef where
  ack : Bool
  /-- The number of the array that holds its entries. -/
  array : Nat
deriving DecidableEq

/-- A stretch of one of the buffers of a session. -/
structure ByteRef where
  buffer : Nat
  start : Nat
  length : Nat
deriving DecidableEq

inductive SinkRef where
  /-- A byte buffer, with the number of the buffer that holds its bytes. -/
  | buffer (buffer : Nat)
  | recorder (writes : List Bytes)
deriving DecidableEq

/-- Everything that a session keeps. -/
structure Store where
  log : Logger := {}
  numbers : List NumberArray := []
  arrays : Bindings Nat := []
  pings : Bindings PingRef := []
  buffers : List Bytes := []
  bytes : Bindings ByteRef := []
  sinks : Bindings SinkRef := []
deriving DecidableEq

namespace Store

/-! ## Number arrays and PINGs -/

/-- The number array with a number; all zeros where there is none. -/
def numberArray (s : Store) (n : Nat) : NumberArray :=
  s.numbers.getD n ⟨Vector.replicate payloadSize (Number.ofNat 0), false⟩

def bindArray (s : Store) (name : String) (a : NumberArray) : Store :=
  { s with
    numbers := s.numbers ++ [a]
    arrays := s.arrays.bind name s.numbers.length }

/-- Put a number array that is there already under a name. -/
def shareArray (s : Store) (name : String) (n : Nat) : Store :=
  { s with arrays := s.arrays.bind name n }

def setArray (s : Store) (n : Nat) (a : NumberArray) : Store :=
  { s with numbers := s.numbers.set n a }

/-- The PING that is kept as its sort and the number of an array. -/
def ping (s : Store) (r : PingRef) : Ping := ⟨r.ack, (s.numberArray r.array).entries⟩

/-- Put a PING under a name; its entries are copied to an array of their own, which is frozen. -/
def bindPing (s : Store) (name : String) (p : Ping) : Store :=
  { s with
    numbers := s.numbers ++ [⟨p.entries, true⟩]
    pings := s.pings.bind name ⟨p.ack, s.numbers.length⟩ }

/-! ## Byte arrays -/

def view (s : Store) (r : ByteRef) : View :=
  View.within (s.buffers.getD r.buffer []) r.start r.length

def setBuffer (s : Store) (buffer : Nat) (content : Bytes) : Store :=
  { s with buffers := s.buffers.set buffer content }

def bindBytes (s : Store) (name : String) (r : ByteRef) : Store :=
  { s with bytes := s.bytes.bind name r }

/-- Put a byte array under a name, in a buffer of its own. -/
def allocate (s : Store) (name : String) (content : Bytes) : Store :=
  { s with
    buffers := s.buffers ++ [content]
    bytes := s.bytes.bind name ⟨s.buffers.length, 0, content.length⟩ }

/-! ## Sinks -/

/-- The sink that a name stands for before it is used: a recorder if the name says so. -/
def freshSink (name : String) : Sink :=
  if "rec".toList.isPrefixOf name.toList then .recorder {} else .buffer {}

/-- The sink under a name; it is made at its first use. -/
def sink (s : Store) (name : String) : Sink :=
  match s.sinks.find? name with
  | some (.buffer n) => .buffer ⟨s.buffers.getD n []⟩
  | some (.recorder writes) => .recorder ⟨writes⟩
  | none => freshSink name

/-- Put a sink under a name; what a byte buffer holds goes to a buffer of its own. -/
def bindSink (s : Store) (name : String) : Sink → Store
  | .buffer b =>
    { s with
      buffers := s.buffers ++ [b.toBytes]
      sinks := s.sinks.bind name (.buffer s.buffers.length) }
  | .recorder r => { s with sinks := s.sinks.bind name (.recorder r.writes) }

/-- Make the sink under a name if there is none yet. -/
def openSink (s : Store) (name : String) : Store :=
  if (s.sinks.find? name).isSome then s else s.bindSink name (freshSink name)

end Store

end Session

end PingCodec
