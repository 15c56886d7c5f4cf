import PingCodec.Proofs.Binary64

/-!
# Decimal text tells binary64 numbers apart

The interval around a binary64 number holds no natural number but itself (`eq_natCast_of_contains`).
The digits of a text lie in that interval, so that a number which is written as a natural number is
that natural number (`eq_ofNat_of_text`).
-/

namespace PingCodec.Number

/-! ## The interval around it -/

namespace RoundingInterval

/-- The interval reaches half a unit of the last bit to either side at most. -/
theorem bounds_of_contains {num den : Nat} {x : Rat} (inside : (around num den).contains x) :
    (significand num den : Rat) * 2 ^ unitExponent num den - 2 ^ unitExponent num den / 2 ≤ x ∧
      x ≤ (significand num den : Rat) * 2 ^ unitExponent num den +
        2 ^ unitExponent num den / 2 := by
  obtain ⟨m, hm⟩ : ∃ m, m = significand num den := ⟨_, rfl⟩
  obtain ⟨u, hu⟩ : ∃ u, u = unitExponent num den := ⟨_, rfl⟩
  have unit := two_zpow_pos u
  have quarter : scale 2 (u - 2) = (2 : Rat) ^ u / 4 := by
    rw [scale_eq_zpow, Nat.cast_ofNat, zpow_sub₀ (by norm_num)]
    norm_num
  have high : (around num den).high = (4 * m + 2) * ((2 : Rat) ^ u / 4) := by
    simp only [around, ← hm, ← hu, quarter]
    push_cast
    ring
  obtain ⟨d, hd, low⟩ : ∃ d ≤ 2, (around num den).low = ((4 * m - d : Nat) : Rat) * (2 ^ u / 4) := by
    simp only [around, ← hm, ← hu, quarter]
    exact ⟨_, by split_ifs <;> decide, rfl⟩
  have below : (4 * m - 2) * ((2 : Rat) ^ u / 4) ≤ (around num den).low := by
    have less : (4 * m : Rat) ≤ ((4 * m - d : Nat) : Rat) + 2 := by exact_mod_cast (by omega)
    rw [low]
    exact mul_le_mul_of_nonneg_right (by linarith) (by positivity)
  have ends : (around num den).low ≤ x ∧ x ≤ (around num den).high := by
    have order : (around num den).low ≤ (around num den).high := by
      have less : ((4 * m - d : Nat) : Rat) ≤ 4 * m + 2 := by exact_mod_cast (by omega)
      rw [low, high]
      exact mul_le_mul_of_nonneg_right less (by positivity)
    simp only [contains, Bool.or_eq_true, Bool.and_eq_true, decide_eq_true_eq, beq_iff_eq] at inside
    rcases inside with ⟨lower, upper⟩ | ⟨-, rfl | rfl⟩
    · exact ⟨lower.le, upper.le⟩
    · exact ⟨le_rfl, order⟩
    · exact ⟨order, le_rfl⟩
  rw [← hm, ← hu]
  constructor <;> linarith [ends.1, ends.2]

/-- The only small natural number in the interval around a binary64 number is the number itself. -/
theorem eq_natCast_of_contains {num den m n : Nat} {e : Int} (small : m < 2 ^ 53)
    (low : -1074 ≤ e) (value : (num : Rat) / den = m * (2 : Rat) ^ e) (hnum : 0 < num)
    (hden : 0 < den) (bound : n < 2 ^ 52) (inside : (around num den).contains n) :
    (num : Rat) / den = n := by
  obtain ⟨lower, upper⟩ := bounds_of_contains inside
  have exact := significand_mul_unit small low value hnum hden
  obtain ⟨u, hu⟩ : ∃ u, u = unitExponent num den := ⟨_, rfl⟩
  obtain ⟨s, hs⟩ : ∃ s, s = significand num den := ⟨_, rfl⟩
  rw [← hu, ← hs] at lower upper exact
  rcases le_or_gt u 0 with fine | coarse
  · -- both are multiples of the unit, and at most half a unit apart
    obtain ⟨k, rfl⟩ : ∃ k : Nat, u = -(k : Int) := ⟨(-u).toNat, by omega⟩
    have unit : (2 : Rat) ^ (-(k : Int)) * 2 ^ k = 1 := by
      rw [zpow_neg, zpow_natCast, inv_mul_cancel₀ (by positivity)]
    have positive : (0 : Rat) < 2 ^ k := by positivity
    have lower' := mul_le_mul_of_nonneg_right lower positive.le
    have upper' := mul_le_mul_of_nonneg_right upper positive.le
    have scaled (x : Rat) : x * 2 ^ (-(k : Int)) * 2 ^ k = x := by rw [mul_assoc, unit, mul_one]
    rw [sub_mul, scaled, div_mul_eq_mul_div, unit] at lower'
    rw [add_mul, scaled, div_mul_eq_mul_div, unit] at upper'
    have below : (s : Rat) < (n * 2 ^ k : Nat) + 1 := by
      push_cast
      linarith
    have above : ((n * 2 ^ k : Nat) : Rat) < s + 1 := by
      push_cast
      linarith
    have same : s = n * 2 ^ k := by
      have : s < n * 2 ^ k + 1 := by exact_mod_cast below
      have : n * 2 ^ k < s + 1 := by exact_mod_cast above
      omega
    rw [← exact, same, Nat.cast_mul, Nat.cast_pow, Nat.cast_ofNat, mul_assoc,
      mul_comm ((2 : Rat) ^ k), unit, mul_one]
  · -- such a number is too large
    exfalso
    have lead : leadingExponent num den = u + 52 := by
      rw [unitExponent] at hu
      omega
    have large := two_zpow_leadingExponent_le hnum hden
    have unit : (2 : Rat) ≤ 2 ^ u := by
      calc (2 : Rat) = 2 ^ (1 : Int) := (zpow_one 2).symm
        _ ≤ 2 ^ u := zpow_le_zpow_right₀ (by norm_num) coarse
    have bound' : (n : Rat) < 2 ^ 52 := by exact_mod_cast bound
    rw [lead, zpow_add₀ (by norm_num), ← exact] at large
    have : (2 : Rat) ^ (52 : Int) = 2 ^ 52 := by norm_cast
    rw [this] at large
    linarith

theorem contains_of_nearestOnGrid? {i : RoundingInterval} {g : Int} {c : Nat}
    (found : i.nearestOnGrid? g = some c) : i.contains (c * scale 10 g) := by
  simp only [nearestOnGrid?] at found
  split at found
  · rename_i low high
    split_ifs at found
    · obtain rfl := Option.some.inj found
      exact low
    · obtain rfl := Option.some.inj found
      exact high
  · rename_i low high
    obtain rfl := Option.some.inj found
    exact low
  · rename_i low high
    obtain rfl := Option.some.inj found
    exact high
  · cases found

end RoundingInterval

/-! ## Text -/

/-- The digits that are written lie in the interval around the number. -/
theorem contains_shortestDigits {num den c : Nat} {g : Int}
    (digits : shortestDigits num den = (c, g)) (pos : c ≠ 0) :
    (RoundingInterval.around num den).contains (c * scale 10 g) := by
  simp only [shortestDigits] at digits
  split at digits
  · rename_i c' g' found
    obtain ⟨h, -, hit⟩ := List.exists_of_findSome?_eq_some found
    obtain ⟨d, nearest, pair⟩ := Option.map_eq_some_iff.1 hit
    obtain ⟨rfl, rfl⟩ := Prod.mk.inj pair
    have inside := RoundingInterval.contains_of_nearestOnGrid? nearest
    split_ifs at digits with round
    · obtain ⟨rfl, rfl⟩ := Prod.mk.inj digits
      have same : ((d / 10 : Nat) : Rat) * scale 10 (h + 1) = d * scale 10 h := by
        have : (d : Rat) = (d / 10 : Nat) * 10 := by exact_mod_cast (by omega)
        rw [this, scale_eq_zpow, scale_eq_zpow, zpow_add₀ (by norm_num), zpow_one]
        push_cast
        ring
      rwa [same]
    · obtain ⟨rfl, rfl⟩ := Prod.mk.inj digits
      exact inside
  · exact absurd (Prod.mk.inj digits).1.symm pos

/-- Only digits and zeros behind them make the text of a natural number. -/
theorem eq_of_positionalText_eq {c n : Nat} {g : Int}
    (text : positionalText c g = Nat.toDigits 10 n) : ∃ k : Nat, g = k ∧ c * 10 ^ k = n := by
  have digit {x : Char} (h : x ∈ positionalText c g) : x.isDigit = true :=
    Nat.isDigit_of_mem_toDigits (by decide) (by decide) (text ▸ h)
  have noMark {x : Char} (h : x ∈ positionalText c g) (mark : x.isDigit = false) : False := by
    rw [digit h] at mark
    cases mark
  obtain ⟨point, hp⟩ : ∃ point, point = g + (decimalDigits c).length := ⟨_, rfl⟩
  by_cases scientific : point ≤ -6 ∨ 21 < point
  · refine (noMark (x := 'e') ?_ rfl).elim
    simp [positionalText, ← hp, scientific]
  by_cases fraction : point ≤ 0
  · refine (noMark (x := '.') ?_ rfl).elim
    simp [positionalText, ← hp, scientific, fraction]
  by_cases whole : 0 ≤ g
  · refine ⟨g.toNat, by omega, ?_⟩
    have value := Nat.ofDigitChars_toDigits (b := 10) (n := n) (by decide) (by decide)
    simp only [← text, positionalText, ← hp, if_neg scientific, if_neg fraction, if_pos whole] at value
    rw [Nat.ofDigitChars_append, Nat.ofDigitChars_replicate_zero, decimalDigits,
      Nat.ofDigitChars_toDigits (by decide) (by decide)] at value
    rw [← value, Nat.mul_comm]
  · refine (noMark (x := '.') ?_ rfl).elim
    simp [positionalText, ← hp, scientific, fraction, whole]

theorem eq_natCast_of_positionalText {q : Rat} {n : Nat} (binary64 : (rational q).IsBinary64)
    (positive : 0 < q) (pos : 0 < n) (small : n < 2 ^ 52)
    (text : positionalText (shortestDigits q.num.natAbs q.den).1
      (shortestDigits q.num.natAbs q.den).2 = Nat.toDigits 10 n) : q = n := by
  obtain ⟨m, e, significand, low, -, value⟩ := binary64
  have num : 0 < q.num := Rat.num_pos.2 positive
  have fraction : ((q.num.natAbs : Nat) : Rat) / q.den = q := by
    rw [Nat.cast_natAbs, abs_of_pos num, Rat.num_div_den]
  rw [abs_of_pos positive, ← fraction] at value
  obtain ⟨k, exponent, digits⟩ := eq_of_positionalText_eq text
  have nonzero : (shortestDigits q.num.natAbs q.den).1 ≠ 0 := by
    intro zero
    rw [zero, Nat.zero_mul] at digits
    omega
  have inside := contains_shortestDigits (Prod.eta _).symm nonzero
  have written : ((shortestDigits q.num.natAbs q.den).1 : Rat) *
      scale 10 (shortestDigits q.num.natAbs q.den).2 = n := by
    rw [exponent, scale_natCast, ← digits]
    push_cast
    rfl
  rw [written] at inside
  rw [← fraction]
  exact RoundingInterval.eq_natCast_of_contains significand low value (by omega) q.pos small inside

/-- A binary64 number that is written as a natural number is that number. -/
theorem eq_ofNat_of_text {x : Number} {n : Nat} (binary64 : x.IsBinary64) (pos : 0 < n)
    (small : n < 2 ^ 52) (text : x.text = toString n) : x = ofNat n := by
  have digits : x.text.toList = Nat.toDigits 10 n := by
    rw [text, Nat.toString_eq_ofList_toDigits, String.toList_ofList]
  have noMark {c : Char} (h : c ∈ x.text.toList) (mark : c.isDigit = false) : False := by
    rw [digits] at h
    rw [Nat.isDigit_of_mem_toDigits (by decide) (by decide) h] at mark
    cases mark
  have noZero (zero : x.text = "0") : False := by
    have value := Nat.ofDigitChars_toDigits (b := 10) (n := n) (by decide) (by decide)
    rw [← digits, zero] at value
    exact pos.ne value
  cases x with
  | nan => exact (noMark (c := 'N') (by decide) rfl).elim
  | infinity negative => exact (noMark (c := 'I') (by cases negative <;> decide) rfl).elim
  | negativeZero => exact (noZero rfl).elim
  | rational q =>
    rw [Number.text] at digits noMark noZero
    split_ifs at digits noMark noZero with zero negative
    · exact (noZero rfl).elim
    · exact (noMark (c := '-') (by simp) rfl).elim
    · have positive : 0 < q := Rat.num_pos.1 (by omega)
      rw [ofNat, eq_natCast_of_positionalText binary64 positive pos small (by simpa using digits)]

end PingCodec.Number
