import PingCodec.Proofs.DecimalText
import PingCodec.Number.Rounding

/-!
# Binary64 numbers

The numbers `m * 2 ^ e` of binary64 are what rounding yields (`isBinary64_nearest`) and what it leaves
as it is (`isBinary64_iff_ofRat`).
-/

namespace PingCodec.Number

/-- That a number is one of the binary64 numbers; all but the rational ones are. -/
def IsBinary64 : Number → Prop
  | rational q =>
    ∃ (m : Nat) (e : Int), m < 2 ^ 53 ∧ -1074 ≤ e ∧ e ≤ 971 ∧ |q| = (m : Rat) * (2 : Rat) ^ e
  | _ => True

/-! ## Scales -/

theorem scale_eq_zpow (base : Nat) (e : Int) : scale base e = (base : Rat) ^ e := by
  obtain ⟨n, rfl | rfl⟩ := e.eq_nat_or_neg
  · rw [scale_natCast, zpow_natCast]
  · rw [scale_neg_natCast, zpow_neg, zpow_natCast, one_div]

theorem two_zpow_mul_pow (e : Int) : (2 : Rat) ^ e * 2 ^ (-e).toNat = 2 ^ e.toNat := by
  rw [← zpow_natCast, ← zpow_natCast, ← zpow_add₀ (by norm_num)]
  congr 1
  omega

theorem two_zpow_pos (e : Int) : (0 : Rat) < 2 ^ e := zpow_pos (by norm_num) e

/-! ## Rounding a binary64 number -/

theorem divHalfEven_mul (t b : Nat) (pos : 0 < b) : divHalfEven (t * b) b = t := by
  have noRest : ¬ (b < 2 * (t * b % b) ∨ (2 * (t * b % b) = b ∧ t * b / b % 2 = 1)) := by
    rw [Nat.mul_mod_left]
    omega
  rw [divHalfEven, if_neg noRest, Nat.mul_div_cancel t pos]

section Exact

variable {num den : Nat}

theorem two_zpow_leadingExponent_le (hnum : 0 < num) (hden : 0 < den) :
    (2 : Rat) ^ leadingExponent num den ≤ num / den := by
  have positive : (0 : Rat) < den := by exact_mod_cast hden
  obtain ⟨k, hk⟩ : ∃ k : Int, k = (num.log2 : Int) - den.log2 := ⟨_, rfl⟩
  rw [leadingExponent, ← hk, le_div_iff₀ positive]
  split_ifs with less
  · have low : (2 : Rat) ^ num.log2 ≤ num := by exact_mod_cast Nat.log2_self_le hnum.ne'
    have high : (den : Rat) ≤ 2 ^ (den.log2 + 1) := by exact_mod_cast Nat.lt_log2_self.le
    calc (2 : Rat) ^ (k - 1) * den
        ≤ 2 ^ (k - 1) * 2 ^ (den.log2 + 1) := by
          exact mul_le_mul_of_nonneg_left high (two_zpow_pos _).le
      _ = 2 ^ num.log2 := by
          rw [← zpow_natCast, ← zpow_natCast, ← zpow_add₀ (by norm_num)]
          congr 1
          omega
      _ ≤ num := low
  · have reached : (den : Rat) * 2 ^ k.toNat ≤ num * 2 ^ (-k).toNat := by
      rw [Nat.shiftLeft_eq, Nat.shiftLeft_eq, not_lt] at less
      exact_mod_cast less
    rw [← two_zpow_mul_pow, ← mul_assoc] at reached
    rw [mul_comm]
    exact le_of_mul_le_mul_right reached (by positivity)

theorem lt_two_zpow_leadingExponent (hden : 0 < den) :
    (num : Rat) / den < 2 ^ (leadingExponent num den + 1) := by
  have positive : (0 : Rat) < den := by exact_mod_cast hden
  obtain ⟨k, hk⟩ : ∃ k : Int, k = (num.log2 : Int) - den.log2 := ⟨_, rfl⟩
  rw [leadingExponent, ← hk, div_lt_iff₀ positive]
  split_ifs with less
  · rw [sub_add_cancel, mul_comm]
    have reached : (num : Rat) * 2 ^ (-k).toNat < den * 2 ^ k.toNat := by
      rw [Nat.shiftLeft_eq, Nat.shiftLeft_eq] at less
      exact_mod_cast less
    rw [← two_zpow_mul_pow k, ← mul_assoc] at reached
    exact lt_of_mul_lt_mul_right reached (by positivity)
  · have high : (num : Rat) < 2 ^ (num.log2 + 1) := by exact_mod_cast Nat.lt_log2_self
    have low : (2 : Rat) ^ den.log2 ≤ den := by exact_mod_cast Nat.log2_self_le hden.ne'
    calc (num : Rat) < 2 ^ (num.log2 + 1) := high
      _ = 2 ^ (k + 1) * 2 ^ den.log2 := by
          rw [← zpow_natCast, ← zpow_natCast, ← zpow_add₀ (by norm_num)]
          congr 1
          omega
      _ ≤ 2 ^ (k + 1) * den := mul_le_mul_of_nonneg_left low (two_zpow_pos _).le

/-- A fraction in units of its last bit, as the quotient of which the rounding is taken. -/
theorem mul_two_pow_eq (hden : 0 < den) (u : Int) :
    (num : Rat) * 2 ^ (-u).toNat = num / den / 2 ^ u * (den * 2 ^ u.toNat) := by
  have positive : (den : Rat) ≠ 0 := by exact_mod_cast hden.ne'
  have unit := (two_zpow_pos u).ne'
  rw [← two_zpow_mul_pow u]
  field_simp

variable {m : Nat} {e : Int} (small : m < 2 ^ 53) (low : -1074 ≤ e)
  (value : (num : Rat) / den = m * (2 : Rat) ^ e) (hnum : 0 < num) (hden : 0 < den)

include small low value hnum hden

/-- The unit in which a binary64 number is rounded divides it. -/
theorem unitExponent_le : unitExponent num den ≤ e := by
  have reached := two_zpow_leadingExponent_le hnum hden
  have bound : (m : Rat) < 2 ^ (53 : Int) := by exact_mod_cast small
  have lead : (2 : Rat) ^ leadingExponent num den < 2 ^ (53 + e) := by
    rw [zpow_add₀ (by norm_num)]
    rw [value] at reached
    exact lt_of_le_of_lt reached (mul_lt_mul_of_pos_right bound (two_zpow_pos e))
  rw [zpow_lt_zpow_iff_right₀ (by norm_num)] at lead
  rw [unitExponent]
  omega

/-- A binary64 number is its significand in units of the last bit. -/
theorem significand_mul_unit :
    (significand num den : Rat) * (2 : Rat) ^ unitExponent num den = num / den := by
  obtain ⟨u, hu⟩ : ∃ u, u = unitExponent num den := ⟨_, rfl⟩
  have le : u ≤ e := hu ▸ unitExponent_le small low value hnum hden
  obtain ⟨t, ht⟩ : ∃ t : Nat, (num : Rat) / den = t * (2 : Rat) ^ u := by
    refine ⟨m * 2 ^ (e - u).toNat, ?_⟩
    rw [value, Nat.cast_mul, Nat.cast_pow, Nat.cast_ofNat, mul_assoc, ← zpow_natCast,
      ← zpow_add₀ (by norm_num)]
    congr 2
    omega
  have divides : num * 2 ^ (-u).toNat = t * (den * 2 ^ u.toNat) := by
    have h : (num : Rat) * 2 ^ (-u).toNat = t * (den * 2 ^ u.toNat) := by
      rw [mul_two_pow_eq hden, ht, mul_div_cancel_right₀ _ (two_zpow_pos u).ne']
    exact_mod_cast h
  rw [significand, ← hu, Nat.shiftLeft_eq, Nat.shiftLeft_eq, divides,
    divHalfEven_mul t _ (by positivity), ht]

end Exact

/-! ## What rounding yields -/

theorem le_divHalfEven {a b k : Nat} (pos : 0 < b) (reached : k * b ≤ a) : k ≤ divHalfEven a b := by
  have quotient : k ≤ a / b := (Nat.le_div_iff_mul_le pos).2 reached
  simp only [divHalfEven]
  split_ifs
  · exact Nat.le_succ_of_le quotient
  · exact quotient

theorem divHalfEven_le {a b k : Nat} (pos : 0 < b) (below : a < k * b) : divHalfEven a b ≤ k := by
  have quotient : a / b < k := (Nat.div_lt_iff_lt_mul pos).2 below
  simp only [divHalfEven]
  split_ifs
  · exact quotient
  · exact quotient.le

theorem isBinary64_neg {q : Rat} (binary64 : (rational q).IsBinary64) :
    (rational (-q)).IsBinary64 := by
  rwa [IsBinary64, abs_neg]

section Rounded

variable {num den : Nat} (hden : 0 < den)

include hden

theorem le_significand {k : Nat} (reached : (k : Rat) * 2 ^ unitExponent num den ≤ num / den) :
    k ≤ significand num den := by
  have units := (le_div_iff₀ (two_zpow_pos _)).2 reached
  rw [significand, Nat.shiftLeft_eq, Nat.shiftLeft_eq]
  apply le_divHalfEven (by positivity)
  have : (k : Rat) * (den * 2 ^ (unitExponent num den).toNat) ≤
      num * 2 ^ (-unitExponent num den).toNat := by
    rw [mul_two_pow_eq hden]
    exact mul_le_mul_of_nonneg_right units (by positivity)
  exact_mod_cast this

theorem significand_le {k : Nat} (below : (num : Rat) / den < k * 2 ^ unitExponent num den) :
    significand num den ≤ k := by
  have units := (div_lt_iff₀ (two_zpow_pos _)).2 below
  rw [significand, Nat.shiftLeft_eq, Nat.shiftLeft_eq]
  apply divHalfEven_le (by positivity)
  have : (num : Rat) * 2 ^ (-unitExponent num den).toNat <
      k * (den * 2 ^ (unitExponent num den).toNat) := by
    rw [mul_two_pow_eq hden]
    exact mul_lt_mul_of_pos_right units (by positivity)
  exact_mod_cast this

/-- The significand of a rounded fraction has 53 bits, or is the next power of two. -/
theorem significand_le_two_pow : significand num den ≤ 2 ^ 53 := by
  apply significand_le hden
  calc (num : Rat) / den < 2 ^ (leadingExponent num den + 1) := lt_two_zpow_leadingExponent hden
    _ ≤ 2 ^ (53 + unitExponent num den) := by
        apply zpow_le_zpow_right₀ (by norm_num)
        rw [unitExponent]
        omega
    _ = _ := by
        rw [zpow_add₀ (by norm_num)]
        norm_num

theorem two_pow_le_significand (hnum : 0 < num) (normal : -1074 < unitExponent num den) :
    2 ^ 52 ≤ significand num den := by
  apply le_significand hden
  have lead : unitExponent num den = leadingExponent num den - 52 := by
    rw [unitExponent] at normal ⊢
    omega
  calc ((2 ^ 52 : Nat) : Rat) * 2 ^ unitExponent num den = 2 ^ leadingExponent num den := by
        rw [lead, show ((2 ^ 52 : Nat) : Rat) = 2 ^ (52 : Int) by norm_num,
          ← zpow_add₀ (by norm_num), add_sub_cancel]
    _ ≤ num / den := two_zpow_leadingExponent_le hnum hden

/-- A rounded fraction below `2 ^ 1024` is a binary64 number. -/
theorem exists_significand_mul_unit (hnum : 0 < num)
    (small : (significand num den : Rat) * 2 ^ unitExponent num den < 2 ^ (1024 : Int)) :
    ∃ (m : Nat) (e : Int), m < 2 ^ 53 ∧ -1074 ≤ e ∧ e ≤ 971 ∧
      (significand num den : Rat) * 2 ^ unitExponent num den = m * 2 ^ e := by
  have low : -1074 ≤ unitExponent num den := le_max_right _ _
  have room {k : Nat} (reached : 2 ^ k ≤ significand num den) :
      (k : Int) + unitExponent num den < 1024 := by
    rw [← zpow_lt_zpow_iff_right₀ (by norm_num : (1 : Rat) < 2), zpow_add₀ (by norm_num)]
    refine lt_of_le_of_lt (mul_le_mul_of_nonneg_right ?_ (two_zpow_pos _).le) small
    exact_mod_cast reached
  rcases (significand_le_two_pow hden).lt_or_eq with fits | next
  · refine ⟨_, _, fits, low, ?_, rfl⟩
    rcases low.lt_or_eq with normal | least
    · have := room (two_pow_le_significand hden hnum normal)
      omega
    · omega
  · -- the next power of two has one more unit
    have := room next.ge
    refine ⟨2 ^ 52, unitExponent num den + 1, by norm_num, by omega, by omega, ?_⟩
    rw [next, zpow_add_one₀ (by norm_num)]
    push_cast
    ring

/-- Rounding yields a binary64 number. -/
theorem isBinary64_nearest (negative : Bool) : (nearest negative num den).IsBinary64 := by
  have zero : (rational 0).IsBinary64 :=
    ⟨0, 0, by norm_num, by norm_num, by norm_num, by simp⟩
  simp only [nearest, scale_eq_zpow, Nat.cast_ofNat]
  rcases Nat.eq_zero_or_pos num with rfl | hnum
  · rw [if_pos rfl, if_pos rfl]
    split_ifs
    · trivial
    · exact zero
  · have finite (small : ¬ (2 : Rat) ^ (1024 : Int) ≤
        (significand num den : Rat) * 2 ^ unitExponent num den) :
        (rational ((significand num den : Rat) * 2 ^ unitExponent num den)).IsBinary64 := by
      obtain ⟨m, e, fits, low, high, value⟩ :=
        exists_significand_mul_unit hden hnum (not_le.1 small)
      have nonneg : (0 : Rat) ≤ m * 2 ^ e := mul_nonneg m.cast_nonneg (two_zpow_pos e).le
      exact ⟨m, e, fits, low, high, by rw [value, abs_of_nonneg nonneg]⟩
    rw [if_neg hnum.ne']
    split_ifs with none minus large minus
    · trivial
    · exact zero
    · trivial
    · exact isBinary64_neg (finite large)
    · exact finite large

end Rounded

/-- Rounding leaves the binary64 numbers as they are, and no others. -/
theorem isBinary64_iff_ofRat (q : Rat) : (rational q).IsBinary64 ↔ ofRat q = rational q := by
  constructor
  · rintro ⟨m, e, fits, low, high, value⟩
    have fraction : ((q.num.natAbs : Nat) : Rat) / q.den = |q| := by
      rw [Nat.cast_natAbs, Int.cast_abs, ← Nat.abs_cast q.den, ← abs_div, Rat.num_div_den]
    rcases eq_or_ne q 0 with rfl | nonzero
    · rfl
    have hnum : 0 < q.num.natAbs := Int.natAbs_pos.2 (Rat.num_ne_zero.2 nonzero)
    have magnitude :
        (significand q.num.natAbs q.den : Rat) * 2 ^ unitExponent q.num.natAbs q.den = |q| :=
      (significand_mul_unit fits low (fraction.trans value) hnum q.pos).trans fraction
    have some : significand q.num.natAbs q.den ≠ 0 := by
      intro none
      rw [none, Nat.cast_zero, zero_mul] at magnitude
      exact nonzero (abs_eq_zero.1 magnitude.symm)
    have finite : |q| < 2 ^ (1024 : Int) := by
      have bound : (m : Rat) < 2 ^ (53 : Int) := by exact_mod_cast fits
      calc |q| = m * 2 ^ e := value
        _ < 2 ^ (53 : Int) * 2 ^ e := mul_lt_mul_of_pos_right bound (two_zpow_pos e)
        _ = 2 ^ (53 + e) := (zpow_add₀ (by norm_num) _ _).symm
        _ ≤ 2 ^ (1024 : Int) := zpow_le_zpow_right₀ (by norm_num) (by omega)
    rw [ofRat, nearest, if_neg hnum.ne', if_neg some, scale_eq_zpow, scale_eq_zpow, Nat.cast_ofNat,
      magnitude, if_neg (not_le.2 finite)]
    simp only [decide_eq_true_eq, Rat.num_neg]
    split_ifs with minus
    · rw [abs_of_neg minus, neg_neg]
    · rw [abs_of_nonneg (not_lt.1 minus)]
  · intro fixed
    rw [← fixed, ofRat]
    exact isBinary64_nearest q.pos _

end PingCodec.Number
