import PingCodec.Number.Basic

/-!
# Hexadecimal text

Numbers in base sixteen, written exactly: the sign, all digits of the integer part, and the digits
of the fraction where there is one.  A byte comes out as its digits.
-/

namespace PingCodec.Number

/-- The base-sixteen digits of a fraction below one, at most as many as given. -/
def hexFractionDigits : Nat → Rat → List Char
  | 0, _ => []
  | count + 1, r =>
    if r.num = 0 then []
    else
      let shifted := r * 16
      Nat.digitChar shifted.floor.toNat :: hexFractionDigits count (shifted - shifted.floor)

/-- The base-sixteen text of a rational.  A denominator that is a power of two has fewer digits
after the point than bits, so that its fraction is written in full. -/
def hexRational (q : Rat) : List Char :=
  let whole := q.num.natAbs / q.den
  let fraction := hexFractionDigits (q.den.log2 + 1) (mkRat (q.num.natAbs % q.den : Nat) q.den)
  (if q.num < 0 then ['-'] else []) ++ Nat.toDigits 16 whole ++
    (if fraction.isEmpty then [] else '.' :: fraction)

/-- The base-sixteen text of a number. -/
def hexDigits : Number → List Char
  | nan => "NaN".toList
  | infinity negative => (if negative then "-Infinity" else "Infinity").toList
  | negativeZero => ['0']
  | rational q => hexRational q

end PingCodec.Number
