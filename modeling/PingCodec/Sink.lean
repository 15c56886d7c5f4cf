import PingCodec.Bytes.Basic

/-!
# Sinks

Encoded frames go to a sink, each in one piece.  A byte buffer joins the pieces; a recorder keeps
them apart.
-/

namespace PingCodec

/-- A destination for encoded bytes. -/
class ByteSink (σ : Type) where
  put : σ → Bytes → σ

/-- A sink that joins what it is given. -/
structure ByteBuffer where
  toBytes : Bytes := []
deriving DecidableEq

namespace ByteBuffer

def put (b : ByteBuffer) (piece : Bytes) : ByteBuffer := ⟨b.toBytes ++ piece⟩

def size (b : ByteBuffer) : Nat := b.toBytes.length

def clear (_ : ByteBuffer) : ByteBuffer := {}

instance : ByteSink ByteBuffer := ⟨put⟩

end ByteBuffer

/-- A sink that keeps the pieces it is given. -/
structure Recorder where
  writes : List Bytes := []
deriving DecidableEq

namespace Recorder

def put (r : Recorder) (piece : Bytes) : Recorder := ⟨r.writes ++ [piece]⟩

instance : ByteSink Recorder := ⟨put⟩

end Recorder

/-! ## Sinks of either sort -/

/-- A byte buffer or a recorder. -/
inductive Sink where
  | buffer (b : ByteBuffer)
  | recorder (r : Recorder)
deriving DecidableEq

namespace Sink

def put (piece : Bytes) : Sink → Sink
  | buffer b => .buffer (b.put piece)
  | recorder r => .recorder (r.put piece)

/-- Everything given so far. -/
def toBytes : Sink → Bytes
  | buffer b => b.toBytes
  | recorder r => r.writes.flatten

def size (s : Sink) : Nat := s.toBytes.length

def clear : Sink → Sink
  | buffer b => .buffer b.clear
  | recorder _ => .recorder {}

instance : ByteSink Sink := ⟨fun s piece => s.put piece⟩

end Sink

end PingCodec
