/-!
# Numbers

The numbers that callers hand to the codec as payload entries, header fields and offsets: exact
rationals together with a negative zero, two infinities and a value that is not a number.  This
file holds the type, numeric equality and the conversions to integers and to the words of the wire.
-/

namespace PingCodec

/-- A number as a caller may supply it. -/
inductive Number where
  | nan
  | infinity (negative : Bool)
  /-- The zero below zero; it is numerically equal to the rational zero. -/
  | negativeZero
  | rational (value : Rat)
deriving DecidableEq

namespace Number

/-- A natural number as a number. -/
def ofNat (n : Nat) : Number := .rational n

/-- A byte as a number. -/
def ofByte (b : UInt8) : Number := ofNat b.toNat

/-! ## Equality -/

/-- Whether this is the value that is not a number. -/
def isNaN : Number → Bool
  | nan => true
  | _ => false

/-- Whether this is an infinity. -/
def isInfinite : Number → Bool
  | infinity _ => true
  | _ => false

/-- The number with the sign of a zero dropped. -/
def unsignedZero : Number → Number
  | negativeZero => .rational 0
  | x => x

/-- Numeric equality: the two zeros are equal, and what is not a number differs from itself. -/
def equals (x y : Number) : Bool := !x.isNaN && x.unsignedZero == y.unsignedZero

/-! ## Conversions -/

/-- The rational value of a finite number. -/
def toRat? : Number → Option Rat
  | negativeZero => some 0
  | rational q => some q
  | _ => none

/-- The natural number that this number is, if it is one; both zeros are zero. -/
def toNat? (x : Number) : Option Nat :=
  match x.toRat? with
  | some q => if q.den = 1 ∧ 0 ≤ q.num then some q.num.toNat else none
  | none => none

/-- The integer part, toward zero; zero where there is no finite value. -/
def truncate (x : Number) : Int :=
  match x.toRat? with
  | some q => q.num.tdiv q.den
  | none => 0

/-- The number without its fraction: an infinity stays, and what is not a number becomes zero. -/
def withoutFraction : Number → Number
  | infinity negative => infinity negative
  | x => .rational x.truncate

/-- The integer part modulo `2 ^ 32`. -/
def toWord (x : Number) : UInt32 := UInt32.ofInt x.truncate

/-- The integer part modulo `2 ^ 8`. -/
def toByte (x : Number) : UInt8 := UInt8.ofInt x.truncate

/-- Whether the number is one of the integers from 0 to 255. -/
def isByte (x : Number) : Bool :=
  match x.toNat? with
  | some n => n ≤ 0xff
  | none => false

/-! ## Natural numbers and bytes -/

theorem equals_ofNat (m n : Nat) : (ofNat m).equals (ofNat n) = (m == n) := by
  rw [Bool.eq_iff_iff]
  simp only [equals, isNaN, unsignedZero, ofNat, Bool.not_false, Bool.true_and, beq_iff_eq,
    rational.injEq, Rat.natCast_inj]

@[simp] theorem toNat?_ofNat (n : Nat) : (ofNat n).toNat? = some n := by
  simp [toNat?, toRat?, ofNat]

@[simp] theorem truncate_ofNat (n : Nat) : (ofNat n).truncate = n := by
  simp [truncate, toRat?, ofNat]

@[simp] theorem toWord_ofNat (n : Nat) : (ofNat n).toWord = UInt32.ofNat n := by
  apply UInt32.toNat_inj.1
  simp only [toWord, truncate_ofNat, UInt32.ofInt, UInt32.toNat_ofNat']
  omega

@[simp] theorem toByte_ofNat (n : Nat) : (ofNat n).toByte = UInt8.ofNat n := by
  apply UInt8.toNat_inj.1
  simp only [toByte, truncate_ofNat, UInt8.ofInt, UInt8.toNat_ofNat']
  omega

@[simp] theorem toByte_ofByte (b : UInt8) : (ofByte b).toByte = b := by
  rw [ofByte, toByte_ofNat, UInt8.ofNat_toNat]

end Number

end PingCodec
