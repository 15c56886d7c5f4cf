/-!
# Byte strings

Byte strings, and the big-endian words stored in them and read from them at a position.
-/

namespace PingCodec

/-- A byte string. -/
abbrev Bytes := List UInt8

namespace Bytes

def zeros (length : Nat) : Bytes := List.replicate length 0

/-! ## Reading -/

/-- The byte at a position, zero past the end. -/
def byteAt (bs : Bytes) (i : Nat) : UInt8 := bs.getD i 0

/-- The two bytes from a position on, the first one high. -/
def word16At (bs : Bytes) (i : Nat) : UInt16 :=
  (bs.byteAt i).toUInt16 <<< 8 ||| (bs.byteAt (i + 1)).toUInt16

/-- The four bytes from a position on, the first one high. -/
def word32At (bs : Bytes) (i : Nat) : UInt32 :=
  (bs.word16At i).toUInt32 <<< 16 ||| (bs.word16At (i + 2)).toUInt32

/-- The value of a byte string read as one big-endian number. -/
def value (bs : Bytes) : Nat := bs.foldl (fun n b => n * 256 + b.toNat) 0

/-! ## Writing -/

/-- Store a byte; a position past the end stores nothing. -/
def setByte (bs : Bytes) (i : Nat) (b : UInt8) : Bytes := bs.set i b

/-- Store a word in two bytes, the first one high. -/
def setWord16 (bs : Bytes) (i : Nat) (w : UInt16) : Bytes :=
  (bs.setByte i (w >>> 8).toUInt8).setByte (i + 1) w.toUInt8

/-- Store a word in four bytes, the first one high. -/
def setWord32 (bs : Bytes) (i : Nat) (w : UInt32) : Bytes :=
  (bs.setWord16 i (w >>> 16).toUInt16).setWord16 (i + 2) w.toUInt16

/-- Store a byte string; the bytes behind it stay. -/
def overwrite (bs : Bytes) (i : Nat) (piece : Bytes) : Bytes :=
  bs.take i ++ piece ++ bs.drop (i + piece.length)

/-- Every store keeps the length. -/
@[simp] theorem length_setByte (bs : Bytes) (i : Nat) (b : UInt8) :
    (bs.setByte i b).length = bs.length := by
  simp [setByte]

@[simp] theorem length_setWord16 (bs : Bytes) (i : Nat) (w : UInt16) :
    (bs.setWord16 i w).length = bs.length := by
  simp [setWord16]

end Bytes

end PingCodec
