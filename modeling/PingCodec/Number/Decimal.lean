import PingCodec.Number.Rounding

/-!
# Decimal text

A number is written with the fewest decimal digits that round back to it, and of the numerals with
that many digits the nearest one.  Plain notation runs from `10 ^ (-6)` to below `10 ^ 21`; outside
of that range one digit stands before the point and a signed power of ten follows.
-/

namespace PingCodec.Number

/-! ## Shortest digits -/

/-- The rationals that round to one binary64 number. -/
structure RoundingInterval where
  value : Rat
  low : Rat
  high : Rat
  /-- Whether both ends belong to the interval. -/
  closed : Bool

namespace RoundingInterval

/-- The interval around the binary64 number nearest to a positive fraction.  Each end is half a
unit away, but below a power of two the unit is half as wide; an even significand wins its ends. -/
def around (num den : Nat) : RoundingInterval :=
  let e := unitExponent num den
  let m := significand num den
  let quarter := scale 2 (e - 2)
  let below := if m = 1 <<< 52 ∧ -1074 < e then 1 else 2
  { value := (4 * m : Nat) * quarter
    low := (4 * m - below : Nat) * quarter
    high := (4 * m + 2 : Nat) * quarter
    closed := m % 2 = 0 }

/-- Whether a rational lies in the interval. -/
def contains (i : RoundingInterval) (q : Rat) : Bool :=
  (i.low < q && q < i.high) || (i.closed && (q == i.low || q == i.high))

/-- The multiple of `10 ^ g` in the interval that is nearest to its number, if one of the two
neighbours of the number lies in it; of two equally near the even one. -/
def nearestOnGrid? (i : RoundingInterval) (g : Int) : Option Nat :=
  let unit := scale 10 g
  let c := (i.value / unit).floor.toNat
  let low := c * unit
  let high := (c + 1 : Nat) * unit
  match i.contains low, i.contains high with
  | true, true =>
    let near := i.value - low
    let far := high - i.value
    some (if near < far ∨ (near = far ∧ c % 2 = 0) then c else c + 1)
  | true, false => some c
  | false, true => some (c + 1)
  | false, false => none

end RoundingInterval

/-- The number of digits before the point of a positive fraction: the `p` for which `num / den` lies
between `10 ^ (p - 1)`, included, and `10 ^ p`, excluded. -/
def pointPosition (num den : Nat) : Int :=
  let q := mkRat num den
  let p := leadingExponent num den * 30103 / 100000
  if q < scale 10 p then p else if q < scale 10 (p + 1) then p + 1 else p + 2

/-- The shortest digits of a positive fraction, as a natural number, and the power of ten that they
count. -/
def shortestDigits (num den : Nat) : Nat × Int :=
  let i := RoundingInterval.around num den
  let p := pointPosition num den
  let grids := (List.range 17).map fun n => p - (n + 1 : Nat)
  match grids.findSome? fun g => (i.nearestOnGrid? g).map (·, g) with
  | some (c, g) => if c % 10 = 0 then (c / 10, g + 1) else (c, g)
  | none => (0, 0)

/-! ## Notation -/

/-- The decimal digits of a natural number. -/
def decimalDigits (n : Nat) : List Char := Nat.toDigits 10 n

/-- The text of the positive number `digits * 10 ^ exponent`. -/
def positionalText (digits : Nat) (exponent : Int) : List Char :=
  let ds := decimalDigits digits
  let point := exponent + ds.length
  if point ≤ -6 ∨ 21 < point then
    let power := point - 1
    ds.take 1 ++ (if ds.length = 1 then [] else '.' :: ds.drop 1) ++
      ['e', if power < 0 then '-' else '+'] ++ decimalDigits power.natAbs
  else if point ≤ 0 then ['0', '.'] ++ List.replicate (-point).toNat '0' ++ ds
  else if 0 ≤ exponent then ds ++ List.replicate exponent.toNat '0'
  else ds.take point.toNat ++ '.' :: ds.drop point.toNat

/-- The text of a number in messages. -/
def text : Number → String
  | nan => "NaN"
  | infinity negative => if negative then "-Infinity" else "Infinity"
  | negativeZero => "0"
  | rational q =>
    if q.num = 0 then "0"
    else
      let (digits, exponent) := shortestDigits q.num.natAbs q.den
      String.ofList ((if q.num < 0 then ['-'] else []) ++ positionalText digits exponent)

end PingCodec.Number
