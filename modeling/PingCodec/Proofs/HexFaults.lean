import PingCodec.Proofs.HexReading

/-!
# Faults in hex text

A text fails for its length, or else for the first of its units that is no digit; what is reported is
the place where the pair of this unit begins (`decodePairs_eq_error_iff`).  Blanks are left out unit by
unit, so that a text need not be well-formed to be read.
-/

namespace PingCodec

namespace Hex

/-! ## The first fault -/

/-- That the unit at a position is no digit and all units before it are. -/
def FirstFault (us : List UInt16) (k : Nat) : Prop :=
  (∃ u, us[k]? = some u ∧ ¬ ∃ v, IsDigitOf v u) ∧ ∀ i < k, ∃ u v, us[i]? = some u ∧ IsDigitOf v u

@[simp]
theorem firstFault_zero_iff (u : UInt16) (us : List UInt16) :
    FirstFault (u :: us) 0 ↔ ¬ ∃ v, IsDigitOf v u := by
  simp [FirstFault]

@[simp]
theorem firstFault_succ_iff (u : UInt16) (us : List UInt16) (k : Nat) :
    FirstFault (u :: us) (k + 1) ↔ (∃ v, IsDigitOf v u) ∧ FirstFault us k := by
  unfold FirstFault
  rw [Nat.forall_lt_succ_left]
  simp only [List.getElem?_cons_succ, List.getElem?_cons_zero, Option.some.injEq, exists_and_left,
    exists_eq_left']
  tauto

/-- Behind a pair of digits the search goes on two places further. -/
theorem exists_firstFault_pair_iff {high low : UInt16} (hhigh : ∃ v, IsDigitOf v high)
    (hlow : ∃ v, IsDigitOf v low) {us : List UInt16} {P : Nat → Prop} :
    (∃ k, FirstFault (high :: low :: us) k ∧ P k) ↔ ∃ k, FirstFault us k ∧ P (k + 2) := by
  rw [← Nat.or_exists_add_one, ← Nat.or_exists_add_one]
  simp [hhigh, hlow]

/-- The pair of the first fault begins inside the units and behind digits only. -/
theorem FirstFault.pair {us : List UInt16} {k : Nat} (first : FirstFault us k) :
    2 * (k / 2) < us.length ∧ ∀ i < 2 * (k / 2), ∃ u v, us[i]? = some u ∧ IsDigitOf v u := by
  obtain ⟨⟨u, at_k, -⟩, digits⟩ := first
  obtain ⟨inside, -⟩ := List.getElem?_eq_some_iff.1 at_k
  refine ⟨by omega, fun i hi => ?_⟩
  apply digits
  omega

theorem exists_firstFault_iff (us : List UInt16) :
    (∃ k, FirstFault us k) ↔ ∃ u ∈ us, ¬ ∃ v, IsDigitOf v u := by
  induction us with
  | nil => simp [FirstFault]
  | cons u us ih =>
    rw [← Nat.or_exists_add_one]
    simp only [firstFault_zero_iff, firstFault_succ_iff, exists_and_left, ih, List.mem_cons,
      exists_eq_or_imp]
    tauto

/-! ## What is reported -/

theorem map_eq_error_iff {ε α β : Type} {f : α → β} {x : Except ε α} {e : ε} :
    x.map f = .error e ↔ x = .error e := by
  cases x <;> simp [Except.map]

theorem decodePairs_ne_oddLength (n : Nat) (us : List UInt16) :
    decodePairs n us ≠ .error .oddLength := by
  fun_induction decodePairs n us with
  | case1 n high low us h l hl hh ih => rwa [Ne, map_eq_error_iff]
  | case2 | case3 => simp

/-- The pair that is reported is the one that holds the first fault. -/
theorem decodePairs_eq_error_iff {n p : Nat} {us : List UInt16} (even : us.length % 2 = 0) :
    decodePairs n us = .error (.badPair p) ↔ ∃ k, FirstFault us k ∧ p = n + 2 * (k / 2) := by
  -- Each pair of digits moves the position and the search by two places.
  fun_induction decodePairs n us with
  | case1 n high low us h l hl hh ih =>
    have even' : us.length % 2 = 0 := by
      rw [List.length_cons, List.length_cons] at even
      omega
    have hhigh : ∃ v, IsDigitOf v high := ⟨_, digitValue?_eq_some_iff.1 hh⟩
    have hlow : ∃ v, IsDigitOf v low := ⟨_, digitValue?_eq_some_iff.1 hl⟩
    rw [map_eq_error_iff, ih even', exists_firstFault_pair_iff hhigh hlow]
    apply exists_congr
    intro k
    rw [show n + 2 * ((k + 2) / 2) = n + 2 + 2 * (k / 2) by omega]
  | case2 n high low us bad =>
    -- The fault is in the first or in the second place of this pair, and is reported alike.
    have fault : ¬ ((∃ v, IsDigitOf v high) ∧ ∃ v, IsDigitOf v low) := by
      simp only [← isDigit_iff, isDigit, Option.isSome_iff_exists]
      rintro ⟨⟨h, hh⟩, l, hl⟩
      exact bad h l hh hl
    constructor
    · intro same
      cases same
      by_cases hhigh : ∃ v, IsDigitOf v high
      · refine ⟨1, ?_, rfl⟩
        simpa [hhigh] using fault
      · exact ⟨0, by simpa using hhigh, rfl⟩
    · rintro ⟨_ | _ | k, first, rfl⟩
      · rfl
      · rfl
      · simp at first
        tauto
  | case3 us n short =>
    rw [eq_nil_of_no_pair even short]
    simp [FirstFault]

/-! ## Whole texts -/

/-- That a result reports what is wrong with units that are no blanks.  An odd number is refused
whatever the units are, and an even one for the first fault, by the place of its pair. -/
structure Reports (cs : List UInt16) (result : Except DecodeError Bytes) : Prop where
  odd : result = .error .oddLength ↔ cs.length % 2 = 1
  fault : ∀ p, result = .error (.badPair p) ↔
    cs.length % 2 = 0 ∧ ∃ k, FirstFault cs k ∧ p = 2 * (k / 2)
  sound : (∃ bs, result = .ok bs) ↔ AllDigits cs

theorem reports_decodeUnits (us : List UInt16) : Reports (Text.compactUnits us) (decodeUnits us) := by
  unfold decodeUnits
  generalize Text.compactUnits us = cs
  by_cases odd : cs.length % 2 = 1
  · constructor <;> simp [odd, AllDigits]
  · have even : cs.length % 2 = 0 := by omega
    constructor
    · simp [odd, decodePairs_ne_oddLength]
    · simp [even, decodePairs_eq_error_iff even]
    · simp [even, decodePairs_eq_ok_iff even, exists_spells_iff]

/-- Of a text without its blanks an odd number of units is reported whatever they are, then the first
unit that is no digit, by the place where its pair begins; a text with no such unit is read.  The place
is even and inside the text, with nothing but digits in front of it.  The same goes for units that make
up no well-formed text. -/
theorem decode_reports_first :
    (∀ t : String, Reports (Text.units (Text.compact t.toList)) (decode t) ∧
      decode t = decodeUnits (Text.units t.toList)) ∧
    (∀ us, Reports (Text.compactUnits us) (decodeUnits us)) ∧
    (∀ cs, (∃ k, FirstFault cs k) ↔ ∃ u ∈ cs, ¬ ∃ v, IsDigitOf v u) ∧
    (∀ us p, decodeUnits us = .error (.badPair p) →
      let cs := Text.compactUnits us
      p % 2 = 0 ∧ p < cs.length ∧ ∀ i < p, ∃ u v, cs[i]? = some u ∧ IsDigitOf v u) ∧
    DecodeError.oddLength.message = "Invalid hex string: odd length" ∧
    ∀ p, (DecodeError.badPair p).message = "Invalid hex character at position " ++ toString p := by
  refine ⟨fun t => ⟨?_, rfl⟩, reports_decodeUnits, exists_firstFault_iff, fun us p refused => ?_,
    rfl, fun p => rfl⟩
  · rw [Text.units_compact]
    exact reports_decodeUnits _
  · obtain ⟨-, k, first, rfl⟩ := ((reports_decodeUnits us).fault p).1 refused
    exact ⟨by omega, first.pair⟩

/-- A character of two units that stand in two pairs, the same one in a text of odd length, and one of
the units alone. -/
theorem decode_reports_first_surrogates :
    decode "3b 0𝟘7" = .error (.badPair 2) ∧ decode "3b 0𝟘" = .error .oddLength ∧
      decodeUnits [0x33, 0x20, 0xd835] = .error (.badPair 0) ∧
      ∀ i < 2, ∃ u v, (Text.units (Text.compact "3b 0𝟘7".toList))[i]? = some u ∧ IsDigitOf v u := by
  obtain ⟨texts, units, -, places, -⟩ := decode_reports_first
  have straddling : decode "3b 0𝟘7" = .error (.badPair 2) := by
    apply ((texts _).1.fault 2).2
    refine ⟨by decide, 3, ?_, rfl⟩
    rw [show Text.units (Text.compact "3b 0𝟘7".toList) =
      [0x33, 0x62, 0x30, 0xd835, 0xdfd8, 0x37] by decide]
    simp [← isDigit_iff]
    decide
  have alone : decodeUnits [0x33, 0x20, 0xd835] = .error (.badPair 0) := by
    apply ((units _).fault 0).2
    refine ⟨by decide, 1, ?_, rfl⟩
    rw [show Text.compactUnits [0x33, 0x20, 0xd835] = [0x33, 0xd835] by decide]
    simp [← isDigit_iff]
    decide
  refine ⟨straddling, (texts _).1.odd.2 (by decide), alone, ?_⟩
  rw [(texts _).2] at straddling
  rw [Text.units_compact]
  exact (places _ 2 straddling).2.2

end Hex

end PingCodec
