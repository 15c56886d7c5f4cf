import PingCodec.Payload.Basic

/-!
# Reserved payloads

Two kinds of payload have a meaning of their own: one fixed payload announces a shutdown, and those
with a fixed beginning of seven bytes are user pings, told apart by a tag in the last byte.  All
others are ordinary.
-/

namespace PingCodec

/-! ## Reserved values -/

/-- The payload that announces a shutdown. -/
def shutdownPayload : Payload := ⟨#[0x0b, 0x7b, 0xa2, 0xf0, 0x8b, 0x9b, 0xfe, 0x54], rfl⟩

/-- The seven bytes that a user payload begins with. -/
def userBeginning : Vector UInt8 7 := ⟨#[0x3b, 0x7c, 0xdb, 0x7a, 0x0b, 0x87, 0x16], rfl⟩

/-- The tags that user pings are sent with. -/
abbrev UserTag := Fin 2

/-- The payload of the user ping with a tag. -/
def userPayload (tag : UserTag) : Payload := userBeginning.push (UInt8.ofNat tag.val)

/-! ## Classification -/

/-- What a payload means. -/
inductive PayloadClass where
  | shutdown
  /-- A user ping; the tag is taken as found. -/
  | user (tag : Number)
  | ordinary
deriving DecidableEq

/-- The text of a class. -/
def PayloadClass.text : PayloadClass → String
  | shutdown => "shutdown"
  | user tag => s!"user:{tag.text}"
  | ordinary => "ordinary"

namespace Entries

/-- Whether the entries announce a shutdown. -/
def isShutdown (a : Entries) : Bool := a.equals shutdownPayload.entries

/-- Whether the entries begin as a user payload does. -/
def isUser (a : Entries) : Bool :=
  (List.finRange 7).all fun i => a[i.castSucc].equals (Number.ofByte userBeginning[i])

/-- The tag of entries that begin as a user payload does. -/
def userTag? (a : Entries) : Option Number :=
  if a.isUser then some a[(7 : Fin payloadSize)] else none

/-- The class of the entries. -/
def classify (a : Entries) : PayloadClass :=
  if a.isShutdown then .shutdown
  else
    match a.userTag? with
    | some tag => .user tag
    | none => .ordinary

end Entries

/-- The class of a payload. -/
def Payload.classify (p : Payload) : PayloadClass := p.entries.classify

end PingCodec
