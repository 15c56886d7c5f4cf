import Mathlib.Algebra.Order.Field.Rat
import Mathlib.Data.Rat.Floor
import Mathlib.Tactic.FieldSimp
import Mathlib.Tactic.Linarith
import Mathlib.Tactic.Positivity
import PingCodec.Number.Decimal

/-!
# Decimal text of natural numbers

A natural number below `2 ^ 53` is a binary64 number with less than one unit to either side that rounds
to it.  On a grid of powers of ten only the number itself can then stand for it, and its text
consists of its decimal digits (`text_ofNat`).
-/

namespace PingCodec.Number

/-! ## Scales and exponents -/

theorem scale_natCast (base k : Nat) : scale base k = (base : Rat) ^ k := by
  simp [scale, Rat.mkRat_eq_div]

theorem scale_neg_natCast (base k : Nat) : scale base (-k) = 1 / (base : Rat) ^ k := by
  simp [scale, Rat.mkRat_eq_div]

theorem leadingExponent_one {n : Nat} (pos : 0 < n) : leadingExponent n 1 = n.log2 := by
  have reached : ¬ n < 1 <<< n.log2 := by
    rw [Nat.one_shiftLeft, Nat.not_lt]
    exact Nat.log2_self_le (by omega)
  have noShift : (-(n.log2 : Int)).toNat = 0 := by omega
  rw [leadingExponent, show Nat.log2 1 = 0 by decide]
  simp only [Int.natCast_zero, Int.sub_zero, noShift, Nat.shiftLeft_zero, Int.toNat_natCast, reached,
    if_false]

theorem log2_le_of_lt {n : Nat} (pos : 0 < n) (small : n < 2 ^ 53) : n.log2 ≤ 52 := by
  have := (Nat.log2_lt (by omega)).2 small
  omega

theorem unitExponent_one {n : Nat} (pos : 0 < n) : unitExponent n 1 = n.log2 - 52 := by
  rw [unitExponent, leadingExponent_one pos]
  omega

theorem divHalfEven_one (a : Nat) : divHalfEven a 1 = a := by
  simp [divHalfEven, Nat.mod_one]

theorem significand_one {n : Nat} (pos : 0 < n) (small : n < 2 ^ 53) :
    significand n 1 = n * 2 ^ (52 - n.log2) := by
  have bound := log2_le_of_lt pos small
  have up : (-((n.log2 : Int) - 52)).toNat = 52 - n.log2 := by omega
  have down : ((n.log2 : Int) - 52).toNat = 0 := by omega
  rw [significand, unitExponent_one pos]
  simp only [up, down, Nat.shiftLeft_zero, divHalfEven_one]
  rw [Nat.shiftLeft_eq]

/-! ## The interval around a natural number -/

namespace RoundingInterval

/-- The interval around a natural number reaches less than one unit to either side. -/
theorem around_one {n : Nat} (pos : 0 < n) (small : n < 2 ^ 53) :
    (around n 1).value = n ∧ (n : Rat) - 1 < (around n 1).low ∧ (around n 1).low < n ∧
      (n : Rat) < (around n 1).high ∧ (around n 1).high < (n : Rat) + 1 := by
  have bound := log2_le_of_lt pos small
  obtain ⟨k, hk⟩ : ∃ k, k = 52 - n.log2 := ⟨_, rfl⟩
  have exponent : (n.log2 : Int) - 52 - 2 = -((k + 2 : Nat) : Int) := by omega
  have one_le : (1 : Rat) ≤ 2 ^ k := one_le_pow₀ (by norm_num)
  have times : 1 ≤ n * 2 ^ k := Nat.mul_pos pos (by positivity)
  -- what `d` quarters of a unit of the last significand bit amount to
  have quarters (d : Rat) : (4 * (n * 2 ^ k) + d) * (1 / 2 ^ (k + 2)) = n + d / (4 * 2 ^ k) := by
    rw [pow_add]
    field_simp
    ring
  have near {d : Rat} (hd : 0 < d) (hd' : d ≤ 2) :
      0 < d / (4 * 2 ^ k) ∧ d / (4 * 2 ^ k) < 1 :=
    ⟨by positivity, by rw [div_lt_one (by positivity)]; linarith⟩
  have low (b : Nat) (hb : 0 < b) (hb' : b ≤ 2) :
      (n : Rat) - 1 < ((4 * (n * 2 ^ k) - b : Nat) : Rat) * (1 / 2 ^ (k + 2)) ∧
        ((4 * (n * 2 ^ k) - b : Nat) : Rat) * (1 / 2 ^ (k + 2)) < n := by
    obtain ⟨gt, lt⟩ := near (d := b) (by exact_mod_cast hb) (by exact_mod_cast hb')
    have eq := quarters (-b)
    rw [neg_div, ← sub_eq_add_neg, ← sub_eq_add_neg] at eq
    rw [Nat.cast_sub (by omega)]
    push_cast
    rw [eq]
    exact ⟨by linarith, by linarith⟩
  obtain ⟨gt, lt⟩ := near (d := 2) (by norm_num) le_rfl
  have value := quarters 0
  rw [add_zero, zero_div, add_zero] at value
  have below : (n : Rat) - 1 < (around n 1).low ∧ (around n 1).low < n := by
    simp only [around, unitExponent_one pos, significand_one pos small, ← hk, exponent,
      scale_neg_natCast]
    split_ifs
    · exact low 1 (by decide) (by decide)
    · exact low 2 (by decide) (by decide)
  refine ⟨?_, below.1, below.2, ?_, ?_⟩ <;>
    simp only [around, unitExponent_one pos, significand_one pos small, ← hk, exponent,
      scale_neg_natCast] <;> push_cast
  · exact value
  · rw [quarters]
    linarith
  · rw [quarters]
    linarith

/-- Of the natural numbers only the number itself lies in the interval around it. -/
theorem contains_around_one {n : Nat} (pos : 0 < n) (small : n < 2 ^ 53) (x : Nat) :
    (around n 1).contains x = decide (x = n) := by
  obtain ⟨-, below, low, high, above⟩ := around_one pos small
  rcases Nat.lt_trichotomy x n with less | rfl | greater
  · have apart : (x : Rat) + 1 ≤ n := by exact_mod_cast less
    simp [contains, show x ≠ n by omega, show ¬ (around n 1).low < x by linarith,
      show (x : Rat) ≠ (around n 1).low by linarith, show (x : Rat) ≠ (around n 1).high by linarith]
  · simp [contains, low, high]
  · have apart : (n : Rat) + 1 ≤ x := by exact_mod_cast greater
    simp [contains, show x ≠ n by omega, show ¬ (x : Rat) < (around n 1).high by linarith,
      show (x : Rat) ≠ (around n 1).low by linarith, show (x : Rat) ≠ (around n 1).high by linarith]

/-- Among the multiples of a power of ten only the number itself can stand for it. -/
theorem nearestOnGrid?_around_one {n : Nat} (pos : 0 < n) (small : n < 2 ^ 53) (g : Nat) :
    (around n 1).nearestOnGrid? g = if 10 ^ g ∣ n then some (n / 10 ^ g) else none := by
  have value := (around_one pos small).1
  have floor : ((n : Rat) / (10 : Rat) ^ g).floor.toNat = n / 10 ^ g := by
    have h := Rat.floor_natCast_div_natCast n (10 ^ g)
    rw [Nat.cast_pow, Nat.cast_ofNat] at h
    exact congrArg Int.toNat h
  have low : ((n / 10 ^ g : Nat) : Rat) * 10 ^ g = ((n / 10 ^ g * 10 ^ g : Nat) : Rat) := by
    rw [Nat.cast_mul, Nat.cast_pow, Nat.cast_ofNat]
  have high : ((n / 10 ^ g + 1 : Nat) : Rat) * 10 ^ g =
      (((n / 10 ^ g + 1) * 10 ^ g : Nat) : Rat) := by
    rw [Nat.cast_mul, Nat.cast_pow, Nat.cast_ofNat]
  have beyond : (n / 10 ^ g + 1) * 10 ^ g ≠ n := by
    have := Nat.lt_div_mul_add (a := n) (b := 10 ^ g) (by positivity)
    rw [Nat.add_one_mul]
    omega
  simp only [nearestOnGrid?, scale_natCast, value, Nat.cast_ofNat, floor, low, high,
    contains_around_one pos small, beyond, decide_false]
  by_cases h : 10 ^ g ∣ n
  · rw [if_pos h, Nat.div_mul_cancel h, decide_eq_true rfl]
  · have off : n / 10 ^ g * 10 ^ g ≠ n := fun eq => h (Dvd.intro_left _ eq)
    rw [if_neg h, decide_eq_false off]

end RoundingInterval

/-! ## The digits -/

/-- The estimate of the place of the point is at least one and leaves room for the last digit. -/
theorem pointPosition_one {n : Nat} (pos : 0 < n) (small : n < 2 ^ 53) :
    1 ≤ pointPosition n 1 ∧ pointPosition n 1 ≤ 17 := by
  have bound := log2_le_of_lt pos small
  have some_digit : ¬ mkRat n 1 < scale 10 0 := by
    have : (1 : Rat) ≤ n := by exact_mod_cast pos
    rw [show (0 : Int) = (0 : Nat) from rfl, scale_natCast, pow_zero, Rat.mkRat_one]
    exact not_lt.2 this
  simp only [pointPosition, leadingExponent_one pos]
  obtain ⟨p, hp⟩ : ∃ p : Int, p = (n.log2 : Int) * 30103 / 100000 := ⟨_, rfl⟩
  rw [← hp]
  have low : 0 ≤ p := by omega
  have high : p ≤ 15 := by omega
  split_ifs with less
  · have : p ≠ 0 := fun zero => some_digit (zero ▸ less)
    omega
  · omega
  · omega

/-- The digits found for a natural number are its own. -/
theorem shortestDigits_one {n : Nat} (pos : 0 < n) (small : n < 2 ^ 53) :
    ∃ c g : Nat, shortestDigits n 1 = (c, (g : Int)) ∧ c * 10 ^ g = n := by
  obtain ⟨p, hp⟩ : ∃ p, p = pointPosition n 1 := ⟨_, rfl⟩
  have place := pointPosition_one pos small
  rw [← hp] at place
  let grids : List Int := (List.range 17).map fun k => p - (k + 1 : Nat)
  let onGrid (g : Int) := ((RoundingInterval.around n 1).nearestOnGrid? g).map (·, g)
  have onUnits : onGrid 0 = some (n, 0) := by
    have h := RoundingInterval.nearestOnGrid?_around_one pos small 0
    simp only [pow_zero, one_dvd, if_true, Nat.div_one] at h
    exact congrArg (Option.map (·, (0 : Int))) h
  have unitsMem : (0 : Int) ∈ grids := by
    simp only [grids, List.mem_map, List.mem_range]
    exact ⟨(p - 1).toNat, by omega, by omega⟩
  have falling : grids.Pairwise (· > ·) := by
    rw [List.pairwise_map]
    exact List.pairwise_lt_range.imp fun h => by omega
  cases first : grids.findSome? onGrid with
  | none =>
    rw [List.findSome?_eq_none_iff] at first
    cases onUnits.symm.trans (first 0 unitsMem)
  | some hit =>
    obtain ⟨before, g, after, split, taken, missed⟩ := List.findSome?_eq_some_iff.1 first
    -- the grids come in falling order, and the units are not missed
    have nonneg : 0 ≤ g := by
      rw [split] at falling unitsMem
      rcases List.mem_append.1 unitsMem with early | late
      · cases onUnits.symm.trans (missed 0 early)
      · rcases List.mem_cons.1 late with rfl | later
        · exact le_rfl
        · exact le_of_lt ((List.pairwise_cons.1 (List.pairwise_append.1 falling).2.1).1 0 later)
    obtain ⟨k, rfl⟩ := Int.eq_ofNat_of_zero_le nonneg
    simp only [onGrid, RoundingInterval.nearestOnGrid?_around_one pos small] at taken
    have divides : 10 ^ k ∣ n := by
      by_contra off
      rw [if_neg off] at taken
      cases taken
    rw [if_pos divides] at taken
    obtain rfl := Option.some.inj taken
    have digits : shortestDigits n 1 =
        if n / 10 ^ k % 10 = 0 then (n / 10 ^ k / 10, (k : Int) + 1) else (n / 10 ^ k, (k : Int)) := by
      simp only [shortestDigits, ← hp]
      split
      · rename_i hit
        obtain ⟨rfl, rfl⟩ := Prod.mk.inj (Option.some.inj (hit.symm.trans first))
        rfl
      · rename_i none
        cases none.symm.trans first
    rw [digits]
    split_ifs with even
    · refine ⟨n / 10 ^ k / 10, k + 1, rfl, ?_⟩
      rw [pow_succ', ← mul_assoc, Nat.div_mul_cancel (Nat.dvd_of_mod_eq_zero even),
        Nat.div_mul_cancel divides]
    · exact ⟨n / 10 ^ k, k, rfl, Nat.div_mul_cancel divides⟩

theorem toDigits_mul_pow {c : Nat} (pos : 0 < c) (g : Nat) :
    Nat.toDigits 10 (c * 10 ^ g) = Nat.toDigits 10 c ++ List.replicate g '0' := by
  induction g with
  | zero => simp
  | succ g ih =>
    have split := Nat.toDigits_append_toDigits (b := 10) (n := c * 10 ^ g) (d := 0) (by decide)
      (by positivity) (by decide)
    rw [show c * 10 ^ (g + 1) = 10 * (c * 10 ^ g) + 0 by ring, ← split, ih, List.append_assoc,
      Nat.toDigits_zero, List.replicate_succ']

theorem positionalText_natCast {n c g : Nat} (pos : 0 < n) (small : n < 2 ^ 53)
    (digits : c * 10 ^ g = n) : positionalText c g = Nat.toDigits 10 n := by
  have cpos : 0 < c := Nat.pos_of_ne_zero fun zero => by simp [zero] at digits; omega
  have written : Nat.toDigits 10 n = decimalDigits c ++ List.replicate g '0' :=
    digits ▸ toDigits_mul_pow cpos g
  have some_digit : 0 < (decimalDigits c).length := Nat.length_toDigits_pos
  have length : (decimalDigits c).length + g ≤ 16 := by
    have h := (Nat.length_toDigits_le_iff (b := 10) (n := n) (k := 16) (by decide) (by decide)).2
      (by omega)
    rwa [written, List.length_append, List.length_replicate] at h
  have plain : ¬ ((g : Int) + (decimalDigits c).length ≤ -6 ∨
      21 < (g : Int) + (decimalDigits c).length) := by omega
  have whole : ¬ (g : Int) + (decimalDigits c).length ≤ 0 := by omega
  have noFraction : (0 : Int) ≤ g := by omega
  simp only [positionalText, if_neg plain, if_neg whole, if_pos noFraction, Int.toNat_natCast,
    written]

/-- A natural number is written in its decimal digits. -/
theorem text_ofNat {n : Nat} (small : n < 2 ^ 53) : (ofNat n).text = toString n := by
  rcases Nat.eq_zero_or_pos n with rfl | pos
  · rfl
  · obtain ⟨c, g, shortest, digits⟩ := shortestDigits_one pos small
    have num : (n : Rat).num ≠ 0 := by
      rw [Rat.num_natCast]
      omega
    have positive : ¬ (n : Rat).num < 0 := by
      rw [Rat.num_natCast]
      omega
    simp only [ofNat, text, if_neg num, if_neg positive, List.nil_append]
    rw [Rat.num_natCast, Rat.den_natCast, Int.natAbs_natCast, shortest]
    dsimp only
    rw [positionalText_natCast pos small digits, ← Nat.toString_eq_ofList_toDigits]

end PingCodec.Number
