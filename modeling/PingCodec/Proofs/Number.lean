import Mathlib.Algebra.Group.Int.Defs
import PingCodec.Number.Decimal
import PingCodec.Number.Hexadecimal

/-!
# Natural numbers and bytes among the numbers

A number that passes for a byte is that byte or the negative zero (`eq_of_isByte`), so that writing it
out as a byte loses nothing that numeric equality sees (`equals_toByte`).  Numbers that are equal are
written alike, as a byte and as text (`toByte_congr`, `text_congr`, `hexDigits_congr`).
-/

namespace PingCodec.Number

theorem equals_ofByte_iff (b c : UInt8) : (ofByte b).equals (ofByte c) = true ↔ b = c := by
  rw [ofByte, ofByte, equals_ofNat, beq_iff_eq, UInt8.toNat_inj]

theorem equals_self_ofByte (b : UInt8) : (ofByte b).equals (ofByte b) = true :=
  (equals_ofByte_iff b b).2 rfl

theorem isNaN_unsignedZero (x : Number) : x.unsignedZero.isNaN = x.isNaN := by cases x <;> rfl

theorem equals_iff (x y : Number) :
    x.equals y = true ↔ x.isNaN = false ∧ x.unsignedZero = y.unsignedZero := by
  simp only [equals, Bool.and_eq_true, Bool.not_eq_true', beq_iff_eq]

theorem equals_comm (x y : Number) : x.equals y = y.equals x := by
  have half {x y : Number} (h : x.equals y = true) : y.equals x = true := by
    rw [equals_iff] at h ⊢
    obtain ⟨number, same⟩ := h
    exact ⟨by rw [← isNaN_unsignedZero, ← same, isNaN_unsignedZero, number], same.symm⟩
  rw [Bool.eq_iff_iff]
  exact ⟨half, half⟩

theorem eq_of_equals_ofNat {x : Number} {n : Nat} (same : x.equals (ofNat n) = true) :
    x = ofNat n ∨ x = negativeZero ∧ n = 0 := by
  have value := ((equals_iff x (ofNat n)).1 same).2
  cases x with
  | negativeZero =>
    have zero : (0 : Rat) = (n : Rat) := rational.inj value
    exact .inr ⟨rfl, by exact_mod_cast zero.symm⟩
  | nan | infinity s | rational q => exact .inl value

theorem truncate_of_equals {x : Number} {n : Nat} (same : x.equals (ofNat n) = true) :
    x.truncate = n := by
  rcases eq_of_equals_ofNat same with rfl | ⟨rfl, rfl⟩
  · exact truncate_ofNat n
  · rfl

theorem toNat?_of_equals {x : Number} {n : Nat} (same : x.equals (ofNat n) = true) :
    x.toNat? = some n := by
  rcases eq_of_equals_ofNat same with rfl | ⟨rfl, rfl⟩
  · exact toNat?_ofNat n
  · rfl

@[simp] theorem isByte_ofByte (b : UInt8) : (ofByte b).isByte = true := by
  have := b.toNat_lt
  rw [isByte, ofByte, toNat?_ofNat]
  simpa using by omega

theorem eq_of_toNat? {x : Number} {n : Nat} (h : x.toNat? = some n) :
    x = negativeZero ∧ n = 0 ∨ x = ofNat n := by
  cases x with
  | nan | infinity s => simp [toNat?, toRat?] at h
  | negativeZero =>
    left
    simpa [toNat?, toRat?, eq_comm] using h
  | rational q =>
    right
    simp only [toNat?, toRat?, Option.ite_none_right_eq_some, Option.some.injEq] at h
    obtain ⟨⟨den, num⟩, rfl⟩ := h
    rw [ofNat, rational.injEq]
    apply Rat.ext
    · simpa using (Int.toNat_of_nonneg num).symm
    · simpa using den

theorem eq_of_isByte {x : Number} (h : x.isByte = true) :
    x = negativeZero ∨ ∃ b, x = ofByte b := by
  unfold isByte at h
  split at h
  · rename_i n hn
    rcases eq_of_toNat? hn with ⟨rfl, -⟩ | rfl
    · exact .inl rfl
    · refine .inr ⟨UInt8.ofNat n, ?_⟩
      rw [decide_eq_true_eq] at h
      rw [ofByte, UInt8.toNat_ofNat', Nat.mod_eq_of_lt (by omega)]
  · cases h

/-- What passes for a byte is numerically equal to the byte that it is written as. -/
theorem equals_toByte {x : Number} (h : x.isByte = true) : (ofByte x.toByte).equals x = true := by
  rcases eq_of_isByte h with rfl | ⟨b, rfl⟩
  · decide
  · rw [toByte_ofByte]
    exact equals_self_ofByte b

@[simp] theorem truncate_withoutFraction (x : Number) : x.withoutFraction.truncate = x.truncate := by
  cases x <;> simp [withoutFraction, truncate, toRat?]

theorem toNat_toByte (x : Number) : x.toByte.toNat = (x.truncate % 0x100).toNat := by
  rw [toByte, UInt8.ofInt, UInt8.toNat_ofNat']
  omega

theorem toNat_toWord (x : Number) : x.toWord.toNat = (x.truncate % 2 ^ 32).toNat := by
  rw [toWord, UInt32.ofInt, UInt32.toNat_ofNat']
  omega

theorem not_num_natCast_neg (n : Nat) : ¬ (n : Rat).num < 0 := by
  rw [Rat.num_natCast]
  omega

theorem hexDigits_ofNat (n : Nat) : (ofNat n).hexDigits = Nat.toDigits 16 n := by
  have noFraction (count : Nat) : hexFractionDigits count (mkRat ((0 : Nat) : Int) 1) = [] := by
    cases count <;> simp [hexFractionDigits]
  simp only [hexDigits, ofNat, hexRational, if_neg (not_num_natCast_neg n)]
  simp only [Rat.num_natCast, Rat.den_natCast, Int.natAbs_natCast, Nat.div_one, Nat.mod_one,
    noFraction, List.isEmpty_nil, if_true, List.nil_append, List.append_nil]

theorem hexDigits_ofByte (b : UInt8) : (ofByte b).hexDigits = Nat.toDigits 16 b.toNat :=
  hexDigits_ofNat b.toNat

/-! ## Equal numbers are written alike -/

theorem toByte_unsignedZero (x : Number) : x.unsignedZero.toByte = x.toByte := by cases x <;> rfl

theorem text_unsignedZero (x : Number) : x.unsignedZero.text = x.text := by cases x <;> rfl

theorem hexDigits_unsignedZero (x : Number) : x.unsignedZero.hexDigits = x.hexDigits := by
  cases x with
  | negativeZero => exact hexDigits_ofNat 0
  | nan | infinity s | rational q => rfl

section Equal

variable {x y : Number} (same : x.equals y = true)

include same

theorem equals_congr (z : Number) : x.equals z = y.equals z := by
  have value := ((equals_iff x y).1 same).2
  rw [equals, equals, ← isNaN_unsignedZero x, ← isNaN_unsignedZero y, value]

theorem toByte_congr : x.toByte = y.toByte := by
  rw [← toByte_unsignedZero, ((equals_iff x y).1 same).2, toByte_unsignedZero]

theorem text_congr : x.text = y.text := by
  rw [← text_unsignedZero, ((equals_iff x y).1 same).2, text_unsignedZero]

theorem hexDigits_congr : x.hexDigits = y.hexDigits := by
  rw [← hexDigits_unsignedZero, ((equals_iff x y).1 same).2, hexDigits_unsignedZero]

end Equal

/-- Bytes are equal if and only if they are written as the same byte. -/
theorem equals_iff_toByte_eq {x y : Number} (hx : x.isByte = true) (hy : y.isByte = true) :
    x.equals y = true ↔ x.toByte = y.toByte := by
  constructor
  · exact toByte_congr
  · intro same
    rw [← equals_congr (equals_toByte hx), same]
    exact equals_toByte hy

end PingCodec.Number
