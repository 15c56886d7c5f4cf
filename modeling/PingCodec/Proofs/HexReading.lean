import Mathlib.Data.List.Induction
import Mathlib.Tactic.IntervalCases
import Mathlib.Tactic.SplitIfs
import PingCodec.Cli.Argument

/-!
# Reading hex text

Three functions look at a hex text: one judges it, one decodes it and one takes it from a command
line.  All of them go by its UTF-16 units that are no blanks and accept a text if and only if these
are digits in an even number (`agreeOn_units`); the units need not make up a well-formed text, and of
a text that is one its blank characters can as well be left out before (`units_compact`).  What comes
of a text hangs on the values of its digits alone, so that neither blanks nor the case of letters make
a difference (`decodeUnits_congr`).
-/

namespace PingCodec

namespace Text

/-! ## Units -/

theorem unitsOfChar_of_lt {c : Char} (h : c.toNat < 0x10000) :
    unitsOfChar c = [UInt16.ofNat c.toNat] := by
  have basic : c.val < 0x10000 := UInt32.lt_iff_toNat_lt.2 h
  rw [unitsOfChar, if_pos basic, ← UInt16.ofNat_uInt32ToNat]
  rfl

/-- A character beyond the basic plane is a high and a low surrogate. -/
theorem unitsOfChar_of_le {c : Char} (h : 0x10000 ≤ c.toNat) :
    ∃ high low, unitsOfChar c = [high, low] ∧ (0xd800 ≤ high.toNat ∧ high.toNat ≤ 0xdbff) ∧
      0xdc00 ≤ low.toNat ∧ low.toNat ≤ 0xdfff := by
  have beyond : ¬ c.val < 0x10000 := fun below => Nat.not_lt.2 h (UInt32.lt_iff_toNat_lt.1 below)
  have bound : c.val.toNat < 0x110000 := by
    have valid := c.valid
    simp only [UInt32.isValidChar, Nat.isValidChar] at valid
    show c.val.toNat < _
    omega
  have offset : (c.val - 0x10000).toNat = c.val.toNat - 0x10000 :=
    UInt32.toNat_sub_of_le _ _ (UInt32.le_iff_toNat_le.2 h)
  rw [unitsOfChar, if_neg beyond]
  refine ⟨_, _, rfl, ?_, ?_⟩
  · rw [UInt16.toNat_add, UInt32.toNat_toUInt16, UInt32.toNat_shiftRight, offset,
      Nat.shiftRight_eq_div_pow]
    simp only [UInt16.reduceToNat, UInt32.reduceToNat, Nat.reduceMod, Nat.reducePow]
    omega
  · rw [UInt16.toNat_add, UInt32.toNat_toUInt16, UInt32.toNat_and, offset,
      show (0x3ff : UInt32).toNat = 2 ^ 10 - 1 from rfl, Nat.and_two_pow_sub_one_eq_mod]
    simp only [UInt16.reduceToNat, Nat.reducePow]
    omega

/-! ## The case of letters -/

theorem toNat_toLower (c : Char) :
    c.toLower.toNat = if 65 ≤ c.toNat ∧ c.toNat ≤ 90 then c.toNat + 32 else c.toNat := by
  have capital : c.val ≥ 'A'.val ∧ c.val ≤ 'Z'.val ↔ 65 ≤ c.toNat ∧ c.toNat ≤ 90 := by
    rw [ge_iff_le, UInt32.le_iff_toNat_le, UInt32.le_iff_toNat_le]
    rfl
  rw [← if_congr capital rfl rfl]
  unfold Char.toLower
  split_ifs with h
  · show (c.val + 32).toNat = c.val.toNat + 32
    have last : c.val.toNat ≤ 90 := (capital.1 h).2
    simp only [UInt32.toNat_add, UInt32.reduceToNat]
    omega
  · rfl

theorem toNat_toUpper (c : Char) :
    c.toUpper.toNat = if 97 ≤ c.toNat ∧ c.toNat ≤ 122 then c.toNat - 32 else c.toNat := by
  have small : 'a'.val ≤ c.val ∧ c.val ≤ 'z'.val ↔ 97 ≤ c.toNat ∧ c.toNat ≤ 122 := by
    rw [UInt32.le_iff_toNat_le, UInt32.le_iff_toNat_le]
    rfl
  rw [← if_congr small rfl rfl]
  unfold Char.toUpper
  split_ifs with h
  · have first : 97 ≤ c.val.toNat := (small.1 h).1
    have last : c.val.toNat ≤ 122 := (small.1 h).2
    show (c.val + ('A'.val - 'a'.val)).toNat = c.val.toNat - 32
    rw [UInt32.toNat_add, show ('A'.val - 'a'.val : UInt32).toNat = 2 ^ 32 - 32 from rfl]
    omega
  · rfl

theorem toLower_toUpper (c : Char) : c.toUpper.toLower = c.toLower := by
  apply Char.toNat_inj.1
  rw [toNat_toLower, toNat_toLower, toNat_toUpper]
  split_ifs <;> omega

/-! ## Blanks -/

/-- Whether a character is blank. -/
def isBlank (c : Char) : Bool := blankRanges.any fun (first, last) => first ≤ c.val && c.val ≤ last

/-- The characters of a text that count. -/
def compact (cs : List Char) : List Char := cs.filter fun c => !isBlank c

theorem isBlank_iff (c : Char) :
    isBlank c = true ↔ ∃ r ∈ blankRanges, r.1.toNat ≤ c.toNat ∧ c.toNat ≤ r.2.toNat := by
  simp only [isBlank, List.any_eq_true, Bool.and_eq_true, decide_eq_true_eq, UInt32.le_iff_toNat_le]
  rfl

theorem isBlank_toUpper (c : Char) : isBlank c.toUpper = isBlank c := by
  rw [Bool.eq_iff_iff, isBlank_iff, isBlank_iff, toNat_toUpper]
  simp only [blankRanges, List.mem_cons, List.not_mem_nil, or_false, exists_eq_or_imp,
    exists_eq_left, UInt32.reduceToNat]
  split_ifs <;> omega

theorem isBlankUnit_iff (u : UInt16) :
    isBlankUnit u = true ↔ ∃ r ∈ blankRanges, r.1.toNat ≤ u.toNat ∧ u.toNat ≤ r.2.toNat := by
  simp only [isBlankUnit, List.any_eq_true, Bool.and_eq_true, decide_eq_true_eq, UInt32.le_iff_toNat_le,
    UInt16.toNat_toUInt32]

theorem isBlankUnit_of_lt {c : Char} (basic : c.toNat < 0x10000) :
    isBlankUnit (UInt16.ofNat c.toNat) = isBlank c := by
  rw [Bool.eq_iff_iff, isBlankUnit_iff, isBlank_iff, UInt16.toNat_ofNat', Nat.mod_eq_of_lt basic]

theorem toNat_of_isBlankUnit {u : UInt16} (blank : isBlankUnit u = true) :
    u.toNat < 0xd800 ∨ 0xdfff < u.toNat := by
  rw [isBlankUnit_iff] at blank
  obtain ⟨r, hr, first, last⟩ := blank
  have apart : ∀ r ∈ blankRanges, r.2.toNat < 0xd800 ∨ 0xdfff < r.1.toNat := by simp [blankRanges]
  have := apart r hr
  omega

theorem toNat_of_isBlank {c : Char} (blank : isBlank c = true) : c.toNat < 0x10000 := by
  rw [isBlank_iff] at blank
  obtain ⟨r, hr, -, last⟩ := blank
  have basic : ∀ r ∈ blankRanges, r.2.toNat < 0x10000 := by simp [blankRanges]
  exact last.trans_lt (basic r hr)

theorem compactUnits_unitsOfChar (c : Char) :
    compactUnits (unitsOfChar c) = if isBlank c then [] else unitsOfChar c := by
  by_cases basic : c.toNat < 0x10000
  · rw [unitsOfChar_of_lt basic, compactUnits, List.filter_cons, isBlankUnit_of_lt basic]
    cases isBlank c <;> rfl
  · have plain : ¬ isBlank c = true := mt toNat_of_isBlank basic
    obtain ⟨high, low, surrogates, hhigh, hlow⟩ := unitsOfChar_of_le (Nat.not_lt.1 basic)
    have high_plain : ¬ isBlankUnit high = true := fun blank => by
      have := toNat_of_isBlankUnit blank
      omega
    have low_plain : ¬ isBlankUnit low = true := fun blank => by
      have := toNat_of_isBlankUnit blank
      omega
    rw [if_neg plain, surrogates]
    simp [compactUnits, high_plain, low_plain]

/-- It makes no difference whether blanks are left out before a text is taken as units or after. -/
theorem units_compact (cs : List Char) : units (compact cs) = compactUnits (units cs) := by
  induction cs with
  | nil => rfl
  | cons c cs ih =>
    have split : compactUnits (units (c :: cs)) =
        (if isBlank c then [] else unitsOfChar c) ++ units (compact cs) := by
      rw [ih, ← compactUnits_unitsOfChar]
      simp [units, compactUnits]
    rw [split]
    by_cases blank : isBlank c = true
    · simp [compact, blank]
    · simp [compact, blank, units]

/-! ## Units in lower case -/

/-- A unit that is a capital letter, in lower case. -/
def lowerUnit (u : UInt16) : UInt16 := if 0x41 ≤ u ∧ u ≤ 0x5a then u + 0x20 else u

theorem toNat_lowerUnit (u : UInt16) :
    (lowerUnit u).toNat = if 65 ≤ u.toNat ∧ u.toNat ≤ 90 then u.toNat + 32 else u.toNat := by
  unfold lowerUnit
  simp only [UInt16.le_iff_toNat_le, UInt16.reduceToNat]
  split_ifs with capital
  · simp only [UInt16.toNat_add, UInt16.reduceToNat]
    omega
  · rfl

theorem unitsOfChar_toLower (c : Char) :
    unitsOfChar c.toLower = (unitsOfChar c).map lowerUnit := by
  have same := toNat_toLower c
  by_cases basic : c.toNat < 0x10000
  · have basic' : c.toLower.toNat < 0x10000 := by
      rw [same]
      split_ifs <;> omega
    rw [unitsOfChar_of_lt basic, unitsOfChar_of_lt basic', List.map_singleton, List.singleton_inj,
      ← UInt16.toNat_inj, toNat_lowerUnit, UInt16.toNat_ofNat', UInt16.toNat_ofNat',
      Nat.mod_eq_of_lt basic, Nat.mod_eq_of_lt basic', same]
  · obtain ⟨high, low, surrogates, hhigh, hlow⟩ := unitsOfChar_of_le (Nat.not_lt.1 basic)
    have unchanged : c.toLower = c := by
      apply Char.toNat_inj.1
      rw [same, if_neg (by omega)]
    have kept {u : UInt16} (far : 0xd800 ≤ u.toNat) : lowerUnit u = u := by
      rw [← UInt16.toNat_inj, toNat_lowerUnit, if_neg (by omega)]
    rw [unchanged, surrogates, List.map_cons, List.map_singleton, kept (by omega), kept (by omega)]

theorem units_map_toLower (cs : List Char) :
    units (cs.map Char.toLower) = (units cs).map lowerUnit := by
  simp only [units, List.flatMap_map, List.map_flatMap, unitsOfChar_toLower]

theorem isBlankUnit_lowerUnit (u : UInt16) : isBlankUnit (lowerUnit u) = isBlankUnit u := by
  rw [Bool.eq_iff_iff, isBlankUnit_iff, isBlankUnit_iff, toNat_lowerUnit]
  simp only [blankRanges, List.mem_cons, List.not_mem_nil, or_false, exists_eq_or_imp,
    exists_eq_left, UInt32.reduceToNat]
  split_ifs <;> omega

theorem lowerUnit_lowerUnit (u : UInt16) : lowerUnit (lowerUnit u) = lowerUnit u := by
  rw [← UInt16.toNat_inj, toNat_lowerUnit, toNat_lowerUnit]
  split_ifs <;> omega

end Text

namespace Hex

/-! ## Digits -/

def lowerDigits : List Char := "0123456789abcdef".toList

def upperDigits : List Char := "0123456789ABCDEF".toList

/-- That a unit is the digit with a value, in either case. -/
def IsDigitOf (v : Nat) (u : UInt16) : Prop :=
  (Text.units lowerDigits)[v]? = some u ∨ (Text.units upperDigits)[v]? = some u

instance (v : Nat) (u : UInt16) : Decidable (IsDigitOf v u) := inferInstanceAs (Decidable (_ ∨ _))

theorem units_lowerDigits : Text.units lowerDigits =
    [0x30, 0x31, 0x32, 0x33, 0x34, 0x35, 0x36, 0x37, 0x38, 0x39,
      0x61, 0x62, 0x63, 0x64, 0x65, 0x66] := by
  decide

theorem units_upperDigits : Text.units upperDigits =
    [0x30, 0x31, 0x32, 0x33, 0x34, 0x35, 0x36, 0x37, 0x38, 0x39,
      0x41, 0x42, 0x43, 0x44, 0x45, 0x46] := by
  decide

theorem isDigitOf_iff (v : Nat) (u : UInt16) :
    IsDigitOf v u ↔
      v < 10 ∧ u.toNat = 0x30 + v ∨
        10 ≤ v ∧ v < 16 ∧ (u.toNat = 0x61 + (v - 10) ∨ u.toNat = 0x41 + (v - 10)) := by
  rw [IsDigitOf, units_lowerDigits, units_upperDigits]
  by_cases small : v < 16
  · interval_cases v <;> simp [← UInt16.toNat_inj, eq_comm]
  · simp [Nat.not_lt.1 small]
    omega

theorem IsDigitOf.lt {v : Nat} {u : UInt16} (h : IsDigitOf v u) : v < 16 := by
  rw [isDigitOf_iff] at h
  omega

theorem IsDigitOf.unique {v w : Nat} {u : UInt16} (hv : IsDigitOf v u) (hw : IsDigitOf w u) :
    v = w := by
  rw [isDigitOf_iff] at hv hw
  omega

theorem digitValue?_eq_some_iff {u : UInt16} {d : UInt8} :
    digitValue? u = some d ↔ IsDigitOf d.toNat u := by
  rw [isDigitOf_iff]
  have hu := u.toNat_lt
  have hd := d.toNat_lt
  unfold digitValue?
  simp only [UInt16.le_iff_toNat_le, UInt16.reduceToNat]
  split_ifs with decimal lower upper
  · simp [← UInt8.toNat_inj, UInt8.toNat_sub]
    omega
  · simp [← UInt8.toNat_inj, UInt8.toNat_sub]
    omega
  · simp [← UInt8.toNat_inj, UInt8.toNat_sub]
    omega
  · simp
    omega

theorem isDigit_iff (u : UInt16) : isDigit u = true ↔ ∃ v, IsDigitOf v u := by
  rw [isDigit, Option.isSome_iff_exists]
  constructor
  · rintro ⟨d, hd⟩
    exact ⟨_, digitValue?_eq_some_iff.1 hd⟩
  · rintro ⟨v, hv⟩
    have small := hv.lt
    refine ⟨UInt8.ofNat v, digitValue?_eq_some_iff.2 ?_⟩
    rwa [UInt8.toNat_ofNat', Nat.mod_eq_of_lt (by omega)]

/-! ## Pairs of digits -/

/-- That units are the digits of bytes, two a byte and the high one first. -/
inductive Spells : List UInt16 → Bytes → Prop
  | nil : Spells [] []
  | pair {high low : UInt16} {us : List UInt16} {b : UInt8} {bs : Bytes}
      (hhigh : IsDigitOf (b.toNat / 16) high) (hlow : IsDigitOf (b.toNat % 16) low)
      (hrest : Spells us bs) : Spells (high :: low :: us) (b :: bs)

theorem Spells.length_eq {us : List UInt16} {bs : Bytes} (h : Spells us bs) :
    us.length = 2 * bs.length := by
  induction h with
  | nil => rfl
  | pair _ _ _ ih =>
    simp only [List.length_cons, ih]
    omega

/-- Each byte has two units, at twice its own position and behind. -/
theorem Spells.getElem? {us : List UInt16} {bs : Bytes} (h : Spells us bs) {i : Nat} {b : UInt8}
    (hb : bs[i]? = some b) :
    ∃ high low, us[2 * i]? = some high ∧ us[2 * i + 1]? = some low ∧
      IsDigitOf (b.toNat / 16) high ∧ IsDigitOf (b.toNat % 16) low := by
  induction h generalizing i with
  | nil => simp at hb
  | pair hhigh hlow _ ih =>
    cases i with
    | zero =>
      simp only [List.getElem?_cons_zero, Option.some.injEq] at hb
      subst hb
      exact ⟨_, _, rfl, rfl, hhigh, hlow⟩
    | succ i => exact ih hb

/-- That units are digits, in an even number. -/
def AllDigits (us : List UInt16) : Prop := us.length % 2 = 0 ∧ ∀ u ∈ us, ∃ v, IsDigitOf v u

theorem exists_spells_iff (us : List UInt16) : (∃ bs, Spells us bs) ↔ AllDigits us := by
  constructor
  · rintro ⟨bs, h⟩
    refine ⟨by rw [h.length_eq]; omega, ?_⟩
    induction h with
    | nil => simp
    | pair hhigh hlow _ ih => simpa using ⟨⟨_, hhigh⟩, ⟨_, hlow⟩, ih⟩
  · rintro ⟨even, digits⟩
    induction us using List.twoStepInduction with
    | nil => exact ⟨[], .nil⟩
    | singleton u => simp at even
    | cons_cons high low us ih =>
      simp only [List.mem_cons, forall_eq_or_imp] at digits
      obtain ⟨⟨v, hv⟩, ⟨w, hw⟩, rest⟩ := digits
      obtain ⟨bs, hbs⟩ := ih (by simp only [List.length_cons] at even; omega) rest
      have hv' := hv.lt
      have hw' := hw.lt
      have value : (UInt8.ofNat (v * 16 + w)).toNat = v * 16 + w := by
        rw [UInt8.toNat_ofNat', Nat.mod_eq_of_lt (by omega)]
      refine ⟨UInt8.ofNat (v * 16 + w) :: bs, .pair ?_ ?_ hbs⟩
      · rwa [value, show (v * 16 + w) / 16 = v by omega]
      · rwa [value, show (v * 16 + w) % 16 = w by omega]

theorem toNat_shiftLeft_or {h l : UInt8} (hh : h.toNat < 16) (hl : l.toNat < 16) :
    (h <<< 4 ||| l).toNat = h.toNat * 16 + l.toNat := by
  have low : l.toNat < 2 ^ 4 := hl
  rw [UInt8.toNat_or, UInt8.toNat_shiftLeft]
  rw [show (4 : UInt8).toNat % 8 = 4 from rfl, Nat.mod_eq_of_lt (by rw [Nat.shiftLeft_eq]; omega),
    ← Nat.shiftLeft_add_eq_or_of_lt low, Nat.shiftLeft_eq]

/-- Of an even number of units, fewer than two are none. -/
theorem eq_nil_of_no_pair {us : List UInt16} (even : us.length % 2 = 0)
    (short : ∀ high low rest, us = high :: low :: rest → False) : us = [] := by
  match us with
  | [] => rfl
  | [u] => simp at even
  | high :: low :: rest => exact absurd rfl (short high low rest)

/-- Reading pairs succeeds if and only if they are the digits of bytes, and gives these bytes. -/
theorem decodePairs_eq_ok_iff {n : Nat} {us : List UInt16} {bs : Bytes} (even : us.length % 2 = 0) :
    decodePairs n us = .ok bs ↔ Spells us bs := by
  fun_induction decodePairs n us generalizing bs with
  | case1 n high low us h l hl hh ih =>
    have even' : us.length % 2 = 0 := by
      rw [List.length_cons, List.length_cons] at even
      omega
    rw [digitValue?_eq_some_iff] at hh hl
    have value := toNat_shiftLeft_or hh.lt hl.lt
    constructor
    · intro read
      cases hrest : decodePairs (n + 2) us with
      | error e => simp [hrest, Except.map] at read
      | ok cs =>
        rw [hrest] at read
        rw [← Except.ok.inj read]
        have low := hl.lt
        refine .pair ?_ ?_ ((ih even').1 hrest)
        · rwa [value, show (h.toNat * 16 + l.toNat) / 16 = h.toNat by omega]
        · rwa [value, show (h.toNat * 16 + l.toNat) % 16 = l.toNat by omega]
    · rintro (_ | ⟨hhigh, hlow, hrest⟩)
      rename_i b cs
      have byte : h <<< 4 ||| l = b := by
        rw [← UInt8.toNat_inj, value, hh.unique hhigh, hl.unique hlow]
        omega
      rw [(ih even').2 hrest, byte]
      rfl
  | case2 n high low us bad =>
    simp only [reduceCtorEq, false_iff]
    rintro (_ | ⟨hhigh, hlow, -⟩)
    obtain ⟨h, hh⟩ := Option.isSome_iff_exists.1 ((isDigit_iff high).2 ⟨_, hhigh⟩)
    obtain ⟨l, hl⟩ := Option.isSome_iff_exists.1 ((isDigit_iff low).2 ⟨_, hlow⟩)
    exact bad h l hh hl
  | case3 us n short =>
    rw [eq_nil_of_no_pair even short, Except.ok.injEq]
    constructor
    · rintro rfl
      exact .nil
    · rintro ⟨⟩
      rfl

/-! ## Whole texts -/

theorem decodeUnits_eq_ok_iff {us : List UInt16} {bs : Bytes} :
    decodeUnits us = .ok bs ↔ Spells (Text.compactUnits us) bs := by
  unfold decodeUnits
  dsimp only
  split_ifs with odd
  · simp only [false_iff]
    intro h
    rw [h.length_eq] at odd
    omega
  · exact decodePairs_eq_ok_iff (by omega)

theorem exists_decodeUnits_eq_ok_iff (us : List UInt16) :
    (∃ bs, decodeUnits us = .ok bs) ↔ AllDigits (Text.compactUnits us) := by
  simp only [decodeUnits_eq_ok_iff, exists_spells_iff]

theorem isValidUnits_iff (us : List UInt16) :
    isValidUnits us = true ↔ AllDigits (Text.compactUnits us) := by
  simp [isValidUnits, AllDigits, isDigit_iff]

theorem decode_eq_ok_iff {t : String} {bs : Bytes} :
    decode t = .ok bs ↔ Spells (Text.units (Text.compact t.toList)) bs := by
  rw [decode, decodeUnits_eq_ok_iff, Text.units_compact]

theorem exists_decode_eq_ok_iff (t : String) :
    (∃ bs, decode t = .ok bs) ↔ AllDigits (Text.units (Text.compact t.toList)) := by
  simp only [decode_eq_ok_iff, exists_spells_iff]

theorem isValid_iff (t : String) :
    isValid t = true ↔ AllDigits (Text.units (Text.compact t.toList)) := by
  rw [isValid, isValidUnits_iff, Text.units_compact]

/-- The command line takes what can be decoded, and complains of all else in its own way. -/
theorem parseHexUnits_eq (refusal : Cli.ArgumentError) (us : List UInt16) :
    Cli.parseHexUnits refusal us = (decodeUnits us).mapError fun _ => refusal := by
  unfold Cli.parseHexUnits
  split_ifs with valid
  · rw [isValidUnits_iff, ← exists_decodeUnits_eq_ok_iff] at valid
    obtain ⟨bs, hbs⟩ := valid
    rw [hbs]
    rfl
  · rw [isValidUnits_iff, ← exists_decodeUnits_eq_ok_iff] at valid
    cases h : decodeUnits us with
    | ok bs => exact absurd ⟨bs, h⟩ valid
    | error e => rfl

theorem parseHex_eq (t : String) : Cli.parseHex t = (decode t).mapError fun _ => .notHex t :=
  parseHexUnits_eq _ _

theorem parseHexUnits_eq_ok_iff {refusal : Cli.ArgumentError} {us : List UInt16} {bs : Bytes} :
    Cli.parseHexUnits refusal us = .ok bs ↔ decodeUnits us = .ok bs := by
  rw [parseHexUnits_eq]
  cases decodeUnits us <;> simp [Except.mapError]

theorem parseHex_eq_ok_iff {t : String} {bs : Bytes} :
    Cli.parseHex t = .ok bs ↔ decode t = .ok bs :=
  parseHexUnits_eq_ok_iff

/-- That the three ways to look at units which are no blanks go together: units are judged to be hex,
are decoded and are taken from a command line if and only if they are digits in an even number.  The
bytes are then the values of the pairs, by either way of reading; all else fails in both, from a
command line with its refusal. -/
structure AgreeOn (cs : List UInt16) (valid : Bool) (decoded : Except DecodeError Bytes)
    (parsed : Except Cli.ArgumentError Bytes) (refusal : Cli.ArgumentError) : Prop where
  valid_iff : valid = true ↔ AllDigits cs
  decoded_iff : (∃ bs, decoded = .ok bs) ↔ AllDigits cs
  parsed_iff : (∃ bs, parsed = .ok bs) ↔ AllDigits cs
  bytes : AllDigits cs → ∃ bs, decoded = .ok bs ∧ parsed = .ok bs ∧ bs.length = cs.length / 2 ∧
    ∀ i b, bs[i]? = some b →
      ∃ high low, cs[2 * i]? = some high ∧ cs[2 * i + 1]? = some low ∧
        IsDigitOf (b.toNat / 16) high ∧ IsDigitOf (b.toNat % 16) low
  refused : ¬ AllDigits cs → (∃ e, decoded = .error e) ∧ parsed = .error refusal

theorem agreeOn_units (us : List UInt16) (refusal : Cli.ArgumentError) :
    AgreeOn (Text.compactUnits us) (isValidUnits us) (decodeUnits us)
      (Cli.parseHexUnits refusal us) refusal := by
  have accepted := exists_decodeUnits_eq_ok_iff us
  refine ⟨isValidUnits_iff us, accepted, ?_, fun digits => ?_, fun faulty => ?_⟩
  · simp only [parseHexUnits_eq_ok_iff]
    exact accepted
  · obtain ⟨bs, hbs⟩ := accepted.2 digits
    have spelled := decodeUnits_eq_ok_iff.1 hbs
    refine ⟨bs, hbs, parseHexUnits_eq_ok_iff.2 hbs, ?_, fun i b => spelled.getElem?⟩
    have length := spelled.length_eq
    omega
  · rw [parseHexUnits_eq]
    cases h : decodeUnits us with
    | ok bs => exact absurd (accepted.1 ⟨bs, h⟩) faulty
    | error e => exact ⟨⟨e, rfl⟩, rfl⟩

/-! ## Blanks and the case of letters -/

/-- Units without those that are blanks and with letters in lower case. -/
def plainUnits (us : List UInt16) : List UInt16 := (Text.compactUnits us).map Text.lowerUnit

/-- A text without its blanks and with its letters in lower case. -/
def plain (t : String) : String := String.ofList ((Text.compact t.toList).map Char.toLower)

theorem units_plain (t : String) : Text.units (plain t).toList = plainUnits (Text.units t.toList) := by
  rw [plain, String.toList_ofList, Text.units_map_toLower, Text.units_compact, plainUnits]

/-- A blank that is put in is left out again. -/
theorem plain_insert (t u : String) {c : Char} (blank : Text.isBlank c = true) :
    plain (t ++ String.singleton c ++ u) = plain (t ++ u) := by
  simp [plain, Text.compact, blank]

theorem plain_toUpper (t : String) : plain t.toUpper = plain t := by
  have blanks : (fun c : Char => !Text.isBlank c) ∘ Char.toUpper = fun c => !Text.isBlank c :=
    funext fun c => congrArg (!·) (Text.isBlank_toUpper c)
  have letters : Char.toLower ∘ Char.toUpper = Char.toLower := funext Text.toLower_toUpper
  rw [plain, String.toUpper, String.toList_map, Text.compact, List.filter_map, List.map_map, blanks,
    letters, plain, Text.compact]

theorem plainUnits_insert (us vs : List UInt16) {u : UInt16} (blank : Text.isBlankUnit u = true) :
    plainUnits (us ++ u :: vs) = plainUnits (us ++ vs) := by
  simp [plainUnits, Text.compactUnits, blank]

theorem plainUnits_map_lowerUnit (us : List UInt16) :
    plainUnits (us.map Text.lowerUnit) = plainUnits us := by
  have blanks : (fun u => !Text.isBlankUnit u) ∘ Text.lowerUnit = fun u => !Text.isBlankUnit u :=
    funext fun u => congrArg (!·) (Text.isBlankUnit_lowerUnit u)
  have letters : Text.lowerUnit ∘ Text.lowerUnit = Text.lowerUnit := funext Text.lowerUnit_lowerUnit
  rw [plainUnits, Text.compactUnits, List.filter_map, List.map_map, blanks, letters, plainUnits,
    Text.compactUnits]

theorem digitValue?_lowerUnit (u : UInt16) : digitValue? (Text.lowerUnit u) = digitValue? u := by
  apply Option.ext
  intro d
  rw [digitValue?_eq_some_iff, digitValue?_eq_some_iff, isDigitOf_iff, isDigitOf_iff,
    Text.toNat_lowerUnit]
  split_ifs <;> omega

/-- Of the units that are read, only the values of the digits count. -/
theorem decodePairs_congr {us vs : List UInt16} (h : us.map digitValue? = vs.map digitValue?)
    (n : Nat) : decodePairs n us = decodePairs n vs := by
  induction us using List.twoStepInduction generalizing vs n with
  | nil =>
    simp at h
    subst h
    rfl
  | singleton u =>
    match vs with
    | [] | _ :: _ :: _ => simp at h
    | [v] => rfl
  | cons_cons high low us ih =>
    match vs with
    | [] | [_] => simp at h
    | high' :: low' :: vs =>
      simp only [List.map_cons, List.cons.injEq] at h
      obtain ⟨hhigh, hlow, hrest⟩ := h
      rw [decodePairs, decodePairs, hhigh, hlow, ih hrest]

theorem map_digitValue?_plainUnits (us : List UInt16) :
    (plainUnits us).map digitValue? = (Text.compactUnits us).map digitValue? := by
  rw [plainUnits, List.map_map]
  exact congrArg (List.map · _) (funext digitValue?_lowerUnit)

/-- Units that differ in blanks and in the case of letters alone are read alike. -/
theorem decodeUnits_congr {us vs : List UInt16} (h : plainUnits us = plainUnits vs) :
    decodeUnits us = decodeUnits vs := by
  have values : (Text.compactUnits us).map digitValue? = (Text.compactUnits vs).map digitValue? := by
    rw [← map_digitValue?_plainUnits, h, map_digitValue?_plainUnits]
  have length := congrArg List.length values
  rw [List.length_map, List.length_map] at length
  simp only [decodeUnits, length, decodePairs_congr values]

theorem isValidUnits_congr {us vs : List UInt16} (h : plainUnits us = plainUnits vs) :
    isValidUnits us = isValidUnits vs := by
  rw [Bool.eq_iff_iff, isValidUnits_iff, isValidUnits_iff, ← exists_decodeUnits_eq_ok_iff,
    ← exists_decodeUnits_eq_ok_iff, decodeUnits_congr h]

theorem plainUnits_congr {t t' : String} (h : plain t = plain t') :
    plainUnits (Text.units t.toList) = plainUnits (Text.units t'.toList) := by
  rw [← units_plain, h, units_plain]

theorem decode_congr {t t' : String} (h : plain t = plain t') : decode t = decode t' :=
  decodeUnits_congr (plainUnits_congr h)

/-- A text is judged to be hex, is decoded and is taken from a command line if and only if its units
without the blanks are digits in an even number (`AgreeOn`), and so are units that make up no
well-formed text.  Those of one plain form are read alike, and neither a blank put in anywhere nor a
change of case alters this form. -/
theorem readers_agree :
    (∀ t : String,
      AgreeOn (Text.units (Text.compact t.toList)) (isValid t) (decode t) (Cli.parseHex t)
        (.notHex t)) ∧
    (∀ t t' : String, plain t = plain t' →
      isValid t = isValid t' ∧ decode t = decode t' ∧
        ∀ bs, Cli.parseHex t = .ok bs ↔ Cli.parseHex t' = .ok bs) ∧
    (∀ (t u : String) (c : Char), Text.isBlank c = true →
      plain (t ++ String.singleton c ++ u) = plain (t ++ u)) ∧
    (∀ t : String, plain t.toUpper = plain t) ∧
    (∀ us refusal, AgreeOn (Text.compactUnits us) (isValidUnits us) (decodeUnits us)
      (Cli.parseHexUnits refusal us) refusal) ∧
    (∀ us vs, plainUnits us = plainUnits vs →
      isValidUnits us = isValidUnits vs ∧ decodeUnits us = decodeUnits vs ∧
        ∀ refusal, Cli.parseHexUnits refusal us = Cli.parseHexUnits refusal vs) ∧
    (∀ us vs u, Text.isBlankUnit u = true → plainUnits (us ++ u :: vs) = plainUnits (us ++ vs)) ∧
    ∀ us, plainUnits (us.map Text.lowerUnit) = plainUnits us := by
  refine ⟨fun t => ?_, fun t t' h => ⟨isValidUnits_congr (plainUnits_congr h), decode_congr h,
    fun bs => ?_⟩, fun t u c => plain_insert t u, plain_toUpper, agreeOn_units,
    fun us vs h => ⟨isValidUnits_congr h, decodeUnits_congr h, fun refusal => ?_⟩,
    fun us vs u => plainUnits_insert us vs, plainUnits_map_lowerUnit⟩
  · rw [Text.units_compact]
    exact agreeOn_units (Text.units t.toList) (.notHex t)
  · rw [parseHex_eq_ok_iff, parseHex_eq_ok_iff, decode_congr h]
  · rw [parseHexUnits_eq, parseHexUnits_eq, decodeUnits_congr h]

/-- Two spellings of three bytes, and a digit next to half of a surrogate pair. -/
theorem readers_agree_spellings :
    decode "3b 7C\tD\u00a0b" = decode "3B7cdB" ∧ isValid "3b 7C\tD\u00a0b" = isValid "3B7cdB" ∧
    Cli.parseHexUnits (.notHex "") [0xd83d, 0x33] = .error (.notHex "") := by
  obtain ⟨-, alike, -, -, units, -⟩ := readers_agree
  have same : plain "3b 7C\tD\u00a0b" = plain "3B7cdB" := by decide
  have lone : isValidUnits [0xd83d, 0x33] ≠ true := by decide
  have agree := units [0xd83d, 0x33] (.notHex "")
  exact ⟨(alike _ _ same).2.1, (alike _ _ same).1, (agree.refused (mt agree.valid_iff.2 lone)).2⟩

end Hex

end PingCodec
