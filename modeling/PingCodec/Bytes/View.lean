import PingCodec.Bytes.Basic

/-!
# Views

A view is a stretch of a buffer.  Views of one buffer share its bytes: a store through one shows in
all that overlap it.
-/

namespace PingCodec

/-- A stretch of a buffer. -/
structure View where
  buffer : Bytes
  start : Nat
  length : Nat
  fits : start + length ≤ buffer.length := by simp

namespace View

def whole (bs : Bytes) : View where
  buffer := bs
  start := 0
  length := bs.length

def toBytes (v : View) : Bytes := (v.buffer.drop v.start).take v.length

theorem length_toBytes (v : View) : v.toBytes.length = v.length := by
  have := v.fits
  simp only [toBytes, List.length_take, List.length_drop]
  omega

theorem toBytes_whole (bs : Bytes) : (whole bs).toBytes = bs := by
  simp [toBytes, whole]

/-- A position counted from the end if it is negative, moved to the nearest one in a stretch of the
given length. -/
def clampPosition (length : Nat) (i : Int) : Nat :=
  min (if i < 0 then (i + length).toNat else i.toNat) length

theorem clampPosition_le (length : Nat) (i : Int) : clampPosition length i ≤ length :=
  Nat.min_le_right _ _

/-- The part of a view between two positions, up to its end if there is only one.  Where the second
position is the smaller one, the part is empty. -/
def slice (v : View) (first : Int) (last : Option Int) : View :=
  let i := clampPosition v.length first
  let j := last.elim v.length (clampPosition v.length)
  { buffer := v.buffer
    start := v.start + i
    length := j - i
    fits := by
      have hv := v.fits
      have hj : j ≤ v.length := by
        cases last with
        | none => exact Nat.le_refl _
        | some l => exact clampPosition_le v.length l
      have hi : i ≤ v.length := clampPosition_le v.length first
      omega }

theorem toBytes_slice (v : View) (first : Int) (last : Option Int) :
    (v.slice first last).toBytes =
      (v.toBytes.take (last.elim v.length (clampPosition v.length))).drop
        (clampPosition v.length first) := by
  have hl : last.elim v.length (clampPosition v.length) ≤ v.length := by
    cases last with
    | none => exact Nat.le_refl _
    | some l => exact clampPosition_le v.length l
  simp only [slice, toBytes]
  rw [List.take_take, List.drop_take, List.drop_drop, Nat.min_eq_left hl]

/-- The view from a position on. -/
def drop (v : View) (n : Nat) : View := v.slice n none

/-- The buffer after a byte was stored through a view; outside the view nothing is stored. -/
def set (v : View) (i : Int) (b : UInt8) : Bytes :=
  if 0 ≤ i ∧ i < v.length then v.buffer.setByte (v.start + i.toNat) b else v.buffer

/-- The part of a stretch that lies in a buffer. -/
def within (buffer : Bytes) (start length : Nat) : View where
  buffer := buffer
  start := min start buffer.length
  length := min length (buffer.length - min start buffer.length)
  fits := by omega

end View

end PingCodec
