import Mathlib.Algebra.Group.Nat.Defs
import Mathlib.Data.List.Induction
import Mathlib.Tactic.SplitIfs
import PingCodec.Bytes.View

/-!
# Bytes at positions

What the words of a byte string are worth, how a stretch of a byte string is cut out of it, and what
a store leaves where: the stores of a byte and of a word are all cases of writing one byte string
over another (`setByte_eq_overwrite`, …, `overwrite_overwrite`).  The number that a byte string spells
tells it from all others of its length (`eq_of_value_eq`).
-/

namespace PingCodec

namespace Bytes

/-! ## Low bits -/

theorem toNat_and_lowBits {m : UInt8} {j : Nat} (mask : m.toNat = 2 ^ j - 1) (b : UInt8) :
    (b &&& m).toNat = b.toNat % 2 ^ j := by
  rw [UInt8.toNat_and, mask, Nat.and_two_pow_sub_one_eq_mod]

theorem toNat_and_lowBits_word {m : UInt32} {j : Nat} (mask : m.toNat = 2 ^ j - 1) (w : UInt32) :
    (w &&& m).toNat = w.toNat % 2 ^ j := by
  rw [UInt32.toNat_and, mask, Nat.and_two_pow_sub_one_eq_mod]

/-! ## Reading -/

theorem byteAt_eq_getElem {bs : Bytes} {i : Nat} (h : i < bs.length) : bs.byteAt i = bs[i] := by
  rw [byteAt, List.getD_eq_getElem?_getD, List.getElem?_eq_getElem h, Option.getD_some]

theorem byteAt_drop (bs : Bytes) (n i : Nat) : byteAt (bs.drop n) i = bs.byteAt (n + i) := by
  rw [byteAt, byteAt, List.getD_eq_getElem?_getD, List.getD_eq_getElem?_getD, List.getElem?_drop]

theorem byteAt_take {bs : Bytes} {n i : Nat} (h : i < n) : byteAt (bs.take n) i = bs.byteAt i := by
  rw [byteAt, byteAt, List.getD_eq_getElem?_getD, List.getD_eq_getElem?_getD,
    List.getElem?_take_of_lt h]

/-- A stretch of a byte string, byte by byte. -/
theorem take_drop_eq_map {bs : Bytes} {i n : Nat} (h : i + n ≤ bs.length) :
    (bs.drop i).take n = (List.range n).map fun k => bs.byteAt (i + k) := by
  apply List.ext_getElem
  · simp only [List.length_take, List.length_drop, List.length_map, List.length_range]
    omega
  · intro k hk _
    have hk' : k < n := by simp only [List.length_take] at hk; omega
    rw [List.getElem_take, List.getElem_drop, List.getElem_map, List.getElem_range,
      byteAt_eq_getElem (by omega)]

theorem toNat_word16At (bs : Bytes) (i : Nat) :
    (bs.word16At i).toNat = (bs.byteAt i).toNat * 256 + (bs.byteAt (i + 1)).toNat := by
  have high := (bs.byteAt i).toNat_lt
  have low : (bs.byteAt (i + 1)).toNat < 2 ^ 8 := (bs.byteAt (i + 1)).toNat_lt
  rw [word16At, UInt16.toNat_or, UInt16.toNat_shiftLeft, UInt8.toNat_toUInt16, UInt8.toNat_toUInt16]
  rw [show (8 : UInt16).toNat % 16 = 8 from rfl, Nat.mod_eq_of_lt (by rw [Nat.shiftLeft_eq]; omega),
    ← Nat.shiftLeft_add_eq_or_of_lt low, Nat.shiftLeft_eq]

theorem toNat_word32At (bs : Bytes) (i : Nat) :
    (bs.word32At i).toNat = (bs.word16At i).toNat * 65536 + (bs.word16At (i + 2)).toNat := by
  have high := (bs.word16At i).toNat_lt
  have low : (bs.word16At (i + 2)).toNat < 2 ^ 16 := (bs.word16At (i + 2)).toNat_lt
  rw [word32At, UInt32.toNat_or, UInt32.toNat_shiftLeft, UInt16.toNat_toUInt32,
    UInt16.toNat_toUInt32]
  rw [show (16 : UInt32).toNat % 32 = 16 from rfl,
    Nat.mod_eq_of_lt (by rw [Nat.shiftLeft_eq]; omega), ← Nat.shiftLeft_add_eq_or_of_lt low,
    Nat.shiftLeft_eq]

theorem toNat_word32At_eq_value {bs : Bytes} {i : Nat} (h : i + 4 ≤ bs.length) :
    (bs.word32At i).toNat = value ((bs.drop i).take 4) := by
  rw [take_drop_eq_map h, toNat_word32At, toNat_word16At, toNat_word16At]
  simp only [value, List.range_succ, List.range_zero, List.nil_append, List.cons_append,
    List.map_cons, List.map_nil, List.foldl_cons, List.foldl_nil, Nat.add_zero, Nat.add_assoc,
    Nat.reduceAdd]
  omega

theorem value_take_three {bs : Bytes} (h : 3 ≤ bs.length) :
    value (bs.take 3) = (bs.byteAt 0).toNat * 65536 + (bs.word16At 1).toNat := by
  have window := take_drop_eq_map (show 0 + 3 ≤ bs.length from h)
  rw [List.drop_zero] at window
  rw [window, toNat_word16At]
  simp only [value, List.range_succ, List.range_zero, List.nil_append, List.cons_append,
    List.map_cons, List.map_nil, List.foldl_cons, List.foldl_nil, Nat.zero_add, Nat.reduceAdd]
  omega

/-! ## Big-endian numbers -/

theorem value_concat (bs : Bytes) (b : UInt8) : value (bs ++ [b]) = value bs * 256 + b.toNat := by
  rw [value, List.foldl_append]
  rfl

theorem value_append (bs cs : Bytes) : value (bs ++ cs) = value bs * 256 ^ cs.length + value cs := by
  induction cs using List.reverseRecOn with
  | nil =>
    rw [List.append_nil, List.length_nil, Nat.pow_zero, Nat.mul_one]
    rfl
  | append_singleton cs c ih =>
    rw [← List.append_assoc, value_concat, ih, value_concat, List.length_append,
      List.length_singleton, Nat.pow_succ, Nat.add_mul, Nat.mul_assoc, Nat.add_assoc]

theorem value_lt (bs : Bytes) : value bs < 256 ^ bs.length := by
  induction bs using List.reverseRecOn with
  | nil => exact Nat.one_pos
  | append_singleton bs b ih =>
    have digit : b.toNat < 256 := b.toNat_lt
    rw [value_concat, List.length_append, List.length_singleton, Nat.pow_succ]
    omega

/-- Byte strings of one length that spell the same number are the same. -/
theorem eq_of_value_eq {bs cs : Bytes} (length : bs.length = cs.length)
    (same : value bs = value cs) : bs = cs := by
  induction bs using List.reverseRecOn generalizing cs with
  | nil => exact (List.length_eq_zero_iff.1 length.symm).symm
  | append_singleton bs b ih =>
    cases cs using List.reverseRecOn with
    | nil => simp at length
    | append_singleton cs c =>
      have digit : b.toNat < 256 := b.toNat_lt
      have digit' : c.toNat < 256 := c.toNat_lt
      rw [value_concat, value_concat] at same
      have last : b.toNat = c.toNat := by omega
      rw [List.length_append, List.length_append] at length
      rw [ih (by simpa using length) (by omega), UInt8.toNat_inj.1 last]

/-! ## Writing -/

theorem length_overwrite {bs piece : Bytes} {i : Nat} (h : i + piece.length ≤ bs.length) :
    (bs.overwrite i piece).length = bs.length := by
  simp only [overwrite, List.length_append, List.length_take, List.length_drop]
  omega

theorem getElem?_overwrite {bs piece : Bytes} {i : Nat} (h : i + piece.length ≤ bs.length)
    (j : Nat) :
    (bs.overwrite i piece)[j]? =
      if i ≤ j ∧ j < i + piece.length then piece[j - i]? else bs[j]? := by
  have front : (bs.take i).length = i := by rw [List.length_take]; omega
  rw [overwrite, List.append_assoc, List.getElem?_append, front]
  split_ifs with before inside inside
  · omega
  · exact List.getElem?_take_of_lt before
  · exact List.getElem?_append_left (by omega)
  · rw [List.getElem?_append_right (by omega), List.getElem?_drop]
    congr 1
    omega

/-- Writing over the whole of a byte string leaves nothing of it. -/
theorem overwrite_zero {bs piece : Bytes} (h : piece.length = bs.length) :
    bs.overwrite 0 piece = piece := by
  simp [overwrite, h]

/-- Two pieces written one behind the other are one piece. -/
theorem overwrite_overwrite {bs : Bytes} {i j : Nat} (first second : Bytes)
    (behind : i + first.length = j) (h : j + second.length ≤ bs.length) :
    (bs.overwrite i first).overwrite j second = bs.overwrite i (first ++ second) := by
  have inner := @length_overwrite bs first i (by omega)
  subst behind
  apply List.ext_getElem?
  intro k
  rw [getElem?_overwrite (by omega), getElem?_overwrite (by omega),
    getElem?_overwrite (by rw [List.length_append]; omega), List.length_append]
  split_ifs
  · rw [List.getElem?_append_right (by omega)]
    congr 1
    omega
  · omega
  · rw [List.getElem?_append_left (by omega)]
  · omega
  · omega
  · rfl

theorem byteAt_setByte {bs : Bytes} {i : Nat} (h : i < bs.length) (b : UInt8) (j : Nat) :
    (bs.setByte i b).byteAt j = if j = i then b else bs.byteAt j := by
  simp only [byteAt, setByte, List.getD_eq_getElem?_getD, List.getElem?_set, h, if_true]
  split_ifs with here there there
  · rfl
  · exact absurd here.symm there
  · exact absurd there.symm here
  · rfl

theorem setByte_byteAt (bs : Bytes) (i : Nat) : bs.setByte i (bs.byteAt i) = bs := by
  by_cases h : i < bs.length
  · rw [setByte, byteAt_eq_getElem h, List.set_getElem_self]
  · exact List.set_eq_of_length_le (Nat.not_lt.1 h)

theorem setByte_eq_overwrite {bs : Bytes} {i : Nat} (h : i < bs.length) (b : UInt8) :
    bs.setByte i b = bs.overwrite i [b] := by
  rw [setByte, List.set_eq_take_append_cons_drop, if_pos h, overwrite, List.append_assoc]
  rfl

/-- The two bytes of a word, the high one first. -/
def ofWord16 (w : UInt16) : Bytes := [(w >>> 8).toUInt8, w.toUInt8]

/-- The four bytes of a word, the high one first. -/
def ofWord32 (w : UInt32) : Bytes := ofWord16 (w >>> 16).toUInt16 ++ ofWord16 w.toUInt16

theorem value_ofWord16 (w : UInt16) : value (ofWord16 w) = w.toNat := by
  have bound := w.toNat_lt
  simp only [value, ofWord16, List.foldl_cons, List.foldl_nil, UInt16.toNat_toUInt8,
    UInt16.toNat_shiftRight, UInt16.reduceToNat, Nat.reduceMod, Nat.shiftRight_eq_div_pow]
  omega

theorem value_ofWord32 (w : UInt32) : value (ofWord32 w) = w.toNat := by
  have bound := w.toNat_lt
  have low : (ofWord16 w.toUInt16).length = 2 := rfl
  rw [ofWord32, value_append, value_ofWord16, value_ofWord16, low, UInt32.toNat_toUInt16,
    UInt32.toNat_toUInt16, UInt32.toNat_shiftRight]
  simp only [UInt32.reduceToNat, Nat.reduceMod, Nat.shiftRight_eq_div_pow]
  omega

theorem setWord16_eq_overwrite {bs : Bytes} {i : Nat} (h : i + 2 ≤ bs.length) (w : UInt16) :
    bs.setWord16 i w = bs.overwrite i (ofWord16 w) := by
  rw [setWord16, setByte_eq_overwrite (by rw [length_setByte]; omega),
    setByte_eq_overwrite (by omega)]
  exact overwrite_overwrite [_] [_] rfl h

theorem setWord32_eq_overwrite {bs : Bytes} {i : Nat} (h : i + 4 ≤ bs.length) (w : UInt32) :
    bs.setWord32 i w = bs.overwrite i (ofWord32 w) := by
  rw [setWord32, setWord16_eq_overwrite (by rw [length_setWord16]; omega),
    setWord16_eq_overwrite (by omega)]
  exact overwrite_overwrite (ofWord16 _) (ofWord16 _) rfl h

/-! Stores that follow one another upwards extend what was written before. -/

section Upwards

variable {bs front : Bytes} {i j : Nat} (behind : i + front.length = j)

include behind

theorem setByte_overwrite (h : j < bs.length) (b : UInt8) :
    (bs.overwrite i front).setByte j b = bs.overwrite i (front ++ [b]) := by
  rw [setByte_eq_overwrite (by rwa [length_overwrite (by omega)])]
  exact overwrite_overwrite front [b] behind h

theorem setWord16_overwrite (h : j + 2 ≤ bs.length) (w : UInt16) :
    (bs.overwrite i front).setWord16 j w = bs.overwrite i (front ++ ofWord16 w) := by
  rw [setWord16_eq_overwrite (by rwa [length_overwrite (by omega)])]
  exact overwrite_overwrite front (ofWord16 w) behind h

theorem setWord32_overwrite (h : j + 4 ≤ bs.length) (w : UInt32) :
    (bs.overwrite i front).setWord32 j w = bs.overwrite i (front ++ ofWord32 w) := by
  rw [setWord32_eq_overwrite (by rwa [length_overwrite (by omega)])]
  exact overwrite_overwrite front (ofWord32 w) behind h

end Upwards

end Bytes

namespace View

theorem toBytes_drop (v : View) (n : Nat) : (v.drop n).toBytes = v.toBytes.drop n := by
  have clamp : clampPosition v.length n = min n v.length := by
    rw [clampPosition, if_neg (by omega), Int.toNat_natCast]
  have whole : v.toBytes.take v.length = v.toBytes := by rw [← length_toBytes, List.take_length]
  rw [drop, toBytes_slice, clamp, Option.elim_none, whole]
  rcases Nat.le_total n v.length with less | more
  · rw [Nat.min_eq_left less]
  · rw [Nat.min_eq_right more, List.drop_eq_nil_of_le (Nat.le_of_eq v.length_toBytes),
      List.drop_eq_nil_of_le (by rwa [length_toBytes])]

theorem toBytes_slice_zero (v : View) (n : Nat) : (v.slice 0 (some n)).toBytes = v.toBytes.take n := by
  have first : clampPosition v.length 0 = 0 := Nat.zero_min _
  have last : clampPosition v.length n = min n v.length := by
    rw [clampPosition, if_neg (by omega), Int.toNat_natCast]
  rw [toBytes_slice, first, Option.elim_some, last, List.drop_zero, ← length_toBytes,
    ← List.take_take, List.take_length]

theorem byteAt_toBytes {v : View} {i : Nat} (h : i < v.length) :
    v.toBytes.byteAt i = v.buffer.byteAt (v.start + i) := by
  rw [toBytes, Bytes.byteAt_take h, Bytes.byteAt_drop]

theorem word16At_toBytes {v : View} {i : Nat} (h : i + 2 ≤ v.length) :
    v.toBytes.word16At i = v.buffer.word16At (v.start + i) := by
  rw [Bytes.word16At, Bytes.word16At, byteAt_toBytes (by omega), byteAt_toBytes (by omega),
    Nat.add_assoc]

theorem word32At_toBytes {v : View} {i : Nat} (h : i + 4 ≤ v.length) :
    v.toBytes.word32At i = v.buffer.word32At (v.start + i) := by
  rw [Bytes.word32At, Bytes.word32At, word16At_toBytes (by omega), word16At_toBytes (by omega),
    Nat.add_assoc]

end View

end PingCodec
