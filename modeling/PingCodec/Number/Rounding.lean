import PingCodec.Number.Basic

/-!
# Rounding to binary64

A binary64 number is `m * 2 ^ e` with `m < 2 ^ 53` and `e ≥ -1074`, below `2 ^ 1024`.  This file
rounds a fraction to the nearest of these, a half going to the even significand, and defines what
rests on that: the value of a decimal numeral and the sum of two numbers.
-/

namespace PingCodec.Number

/-! ## Binary scale -/

/-- The power `base ^ e` for an exponent of either sign. -/
def scale (base : Nat) (e : Int) : Rat := mkRat (base.pow e.toNat) (base.pow (-e).toNat)

/-- The quotient `a / b` rounded to the nearest natural number, a half going to the even one. -/
def divHalfEven (a b : Nat) : Nat :=
  let q := a / b
  let twice := 2 * (a % b)
  if b < twice ∨ (twice = b ∧ q % 2 = 1) then q + 1 else q

/-- The exponent of the leading bit of a positive fraction: the `k` for which `num / den` lies
between `2 ^ k`, included, and `2 ^ (k + 1)`, excluded. -/
def leadingExponent (num den : Nat) : Int :=
  let k := (num.log2 : Int) - den.log2
  if num <<< (-k).toNat < den <<< k.toNat then k - 1 else k

/-- The exponent of the last significand bit of the binary64 numbers around a fraction. -/
def unitExponent (num den : Nat) : Int := max (leadingExponent num den - 52) (-1074)

/-- The significand of the binary64 number nearest to a fraction, in units of its last bit. -/
def significand (num den : Nat) : Nat :=
  let e := unitExponent num den
  divHalfEven (num <<< (-e).toNat) (den <<< e.toNat)

/-! ## Rounding -/

/-- The binary64 number nearest to a fraction of the given sign, infinite from half a unit below
`2 ^ 1024` on; a fraction that rounds to zero keeps its sign. -/
def nearest (negative : Bool) (num den : Nat) : Number :=
  let m := if num = 0 then 0 else significand num den
  let magnitude := m * scale 2 (unitExponent num den)
  if m = 0 then
    if negative then negativeZero else rational 0
  else if scale 2 1024 ≤ magnitude then infinity negative
  else rational (if negative then -magnitude else magnitude)

/-- The binary64 number nearest to a rational; the rational zero has no sign. -/
def ofRat (q : Rat) : Number := nearest (q.num < 0) q.num.natAbs q.den

/-- The binary64 number that the decimal numeral `digits * 10 ^ exponent` stands for.  An exponent
so far out that the number is infinite or zero for that alone is not expanded. -/
def ofDecimal (negative : Bool) (digits : Nat) (exponent : Int) : Number :=
  if digits = 0 ∨ exponent + digits.log2 < -400 then nearest negative 0 1
  else if 400 < exponent then infinity negative
  else nearest negative (digits * Nat.pow 10 exponent.toNat) (Nat.pow 10 (-exponent).toNat)

/-! ## Addition -/

/-- The sum of two numbers, rounded.  Opposite infinities have none, and only two negative zeros
add up to a negative zero. -/
def add : Number → Number → Number
  | nan, _ | _, nan => nan
  | infinity s, infinity t => if s = t then infinity s else nan
  | infinity s, _ | _, infinity s => infinity s
  | negativeZero, negativeZero => negativeZero
  | negativeZero, rational q | rational q, negativeZero => ofRat q
  | rational p, rational q => ofRat (p + q)

end PingCodec.Number
