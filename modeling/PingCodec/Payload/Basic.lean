import PingCodec.Bytes.View
import PingCodec.Frame.Error
import PingCodec.Number.Decimal

/-!
# Payloads

A PING carries eight bytes.  Callers offer eight numbers; they make a payload if each of them is a
byte.
-/

namespace PingCodec

/-- The number of bytes of a payload. -/
abbrev payloadSize : Nat := 8

/-- Eight numbers offered as a payload. -/
abbrev Entries := Vector Number payloadSize

/-- The eight bytes that a PING carries. -/
abbrev Payload := Vector UInt8 payloadSize

namespace Payload

def toBytes (p : Payload) : Bytes := p.toList

/-- The payload as numbers. -/
def entries (p : Payload) : Entries := p.map Number.ofByte

/-- The payload that a view holds; any other number of bytes than eight is refused. -/
def ofView (v : View) : Except FrameError Payload :=
  if v.length = payloadSize then
    .ok (Vector.ofFn fun i => v.buffer.byteAt (v.start + i.val))
  else .error (.payloadSize v.length)

/-- The payload that a byte string spells. -/
def ofBytes (bs : Bytes) : Except FrameError Payload := ofView (View.whole bs)

end Payload

/-- An entry that is not a byte. -/
structure EntryError where
  index : Fin payloadSize
  value : Number
deriving DecidableEq

def EntryError.message (e : EntryError) : String :=
  s!"PING payload byte {e.index.val} is not in 0..255: {e.value.text}"

namespace Entries

/-- Entry by entry equality of numbers. -/
def equals (a b : Entries) : Bool := (List.finRange payloadSize).all fun i => a[i].equals b[i]

/-- Refuse entries that are not all bytes, naming the first that is none. -/
def check (a : Entries) : Except EntryError Unit :=
  match (List.finRange payloadSize).find? fun i => !a[i].isByte with
  | some i => .error ⟨i, a[i]⟩
  | none => .ok ()

end Entries

end PingCodec
