import PingCodec.Hex.Encode
import PingCodec.Proofs.HexReading
import PingCodec.Proofs.Number

/-!
# Hex text both ways

Bytes are written as two lowercase digits each (`toList_ofBytes`).  A text is read as the bytes whose
digits it has once its blanks are gone and its letters are in lower case (`decode_eq_ok_iff_plain`),
so that the written form is the plain form of every text that spells the same bytes.
-/

namespace PingCodec

namespace Text

theorem units_eq_nil_iff (cs : List Char) : units cs = [] ↔ cs = [] := by
  cases cs with
  | nil => simp [units]
  | cons c cs =>
    have some_unit : unitsOfChar c ≠ [] := by
      unfold unitsOfChar
      split <;> simp
    simp [units, some_unit]

end Text

namespace Hex

/-! ## Writing -/

/-- The two digits of a byte. -/
def byteDigits (b : UInt8) : List Char :=
  [Nat.digitChar (b.toNat / 16), Nat.digitChar (b.toNat % 16)]

theorem digitsOf_ofByte (b : UInt8) : digitsOf (Number.ofByte b) = byteDigits b := by
  have bound : b.toNat < 256 := b.toNat_lt
  rw [digitsOf, Number.hexDigits_ofByte, byteDigits]
  by_cases small : b.toNat < 16
  · rw [Nat.toDigits_of_lt_base small, Nat.div_eq_of_lt small, Nat.mod_eq_of_lt small]
    rfl
  · rw [Nat.toDigits_of_base_le (by decide) (Nat.not_lt.1 small),
      Nat.toDigits_of_lt_base (show b.toNat / 16 < 16 by omega)]
    rfl

theorem toList_ofBytes (bs : Bytes) : (ofBytes bs).toList = bs.flatMap byteDigits := by
  rw [ofBytes, encode, String.toList_ofList, List.flatMap_map]
  exact congrArg (List.flatMap · bs) (funext digitsOf_ofByte)

theorem length_ofBytes (bs : Bytes) : (ofBytes bs).length = 2 * bs.length := by
  rw [← String.length_toList, toList_ofBytes]
  induction bs with
  | nil => rfl
  | cons b bs ih =>
    rw [List.flatMap_cons, List.length_append, ih, List.length_cons]
    show 2 + _ = _
    omega

theorem mem_ofBytes {bs : Bytes} {c : Char} (h : c ∈ (ofBytes bs).toList) : c ∈ lowerDigits := by
  have digit : ∀ v < 16, Nat.digitChar v ∈ lowerDigits := by decide
  rw [toList_ofBytes, List.mem_flatMap] at h
  obtain ⟨b, -, hc⟩ := h
  have bound : b.toNat < 256 := b.toNat_lt
  simp only [byteDigits, List.mem_cons, List.not_mem_nil, or_false] at hc
  rcases hc with rfl | rfl
  · exact digit _ (by omega)
  · exact digit _ (by omega)

theorem compact_ofBytes (bs : Bytes) : Text.compact (ofBytes bs).toList = (ofBytes bs).toList := by
  have visible : lowerDigits.all (fun c => !Text.isBlank c) = true := by decide
  rw [Text.compact, List.filter_eq_self]
  exact fun c hc => List.all_eq_true.1 visible c (mem_ofBytes hc)

/-- What is written is in its plain form. -/
theorem plain_ofBytes (bs : Bytes) : plain (ofBytes bs) = ofBytes bs := by
  have lower : lowerDigits.map Char.toLower = lowerDigits.map id := by decide
  rw [plain, compact_ofBytes, List.map_congr_left fun c hc =>
    List.map_inj_left.1 lower c (mem_ofBytes hc), List.map_id, String.ofList_toList]

/-! ## Reading what was written -/

theorem isDigitOf_digitChar {v : Nat} (h : v < 16) :
    ∃ u, Text.unitsOfChar (Nat.digitChar v) = [u] ∧ IsDigitOf v u := by
  have all : ∀ v < 16,
      Text.unitsOfChar (Nat.digitChar v) = [UInt16.ofNat (Nat.digitChar v).toNat] ∧
        IsDigitOf v (UInt16.ofNat (Nat.digitChar v).toNat) := by decide
  exact ⟨_, all v h⟩

theorem spells_flatMap (bs : Bytes) : Spells (Text.units (bs.flatMap byteDigits)) bs := by
  induction bs with
  | nil => exact .nil
  | cons b bs ih =>
    have bound : b.toNat < 256 := b.toNat_lt
    obtain ⟨high, hhigh, digit⟩ := isDigitOf_digitChar (show b.toNat / 16 < 16 by omega)
    obtain ⟨low, hlow, digit'⟩ := isDigitOf_digitChar (show b.toNat % 16 < 16 by omega)
    have pair : Text.units (byteDigits b) = [high, low] := by
      simp [Text.units, byteDigits, hhigh, hlow]
    rw [Text.units] at ih pair ⊢
    rw [List.flatMap_cons, List.flatMap_append, pair]
    exact .pair digit digit' ih

theorem decode_ofBytes (bs : Bytes) : decode (ofBytes bs) = .ok bs := by
  rw [decode_eq_ok_iff, compact_ofBytes, toList_ofBytes]
  exact spells_flatMap bs

/-! ## Writing what was read -/

theorem toLower_of_isDigitOf {c : Char} (basic : c.toNat < 0x10000) {v : Nat}
    (digit : IsDigitOf v (UInt16.ofNat c.toNat)) : c.toLower = Nat.digitChar v := by
  have all : ∀ v < 16, (v < 10 → (Char.ofNat (0x30 + v)).toLower = Nat.digitChar v) ∧
      (10 ≤ v → (Char.ofNat (0x61 + (v - 10))).toLower = Nat.digitChar v ∧
        (Char.ofNat (0x41 + (v - 10))).toLower = Nat.digitChar v) := by decide
  obtain ⟨decimal, letter⟩ := all v digit.lt
  rw [isDigitOf_iff, UInt16.toNat_ofNat', Nat.mod_eq_of_lt basic] at digit
  rw [← Char.ofNat_toNat c]
  rcases digit with ⟨small, place⟩ | ⟨large, -, place | place⟩
  · rw [place, decimal small]
  · rw [place, (letter large).1]
  · rw [place, (letter large).2]

/-- A unit that is a digit is a character of its own, never half of one. -/
theorem eq_cons_of_units {cs : List Char} {u : UInt16} {us : List UInt16} {v : Nat}
    (h : Text.units cs = u :: us) (digit : IsDigitOf v u) :
    ∃ c cs', cs = c :: cs' ∧ c.toLower = Nat.digitChar v ∧ Text.units cs' = us := by
  cases cs with
  | nil => simp [Text.units] at h
  | cons c cs =>
    refine ⟨c, cs, rfl, ?_⟩
    rw [Text.units, List.flatMap_cons] at h
    by_cases basic : c.toNat < 0x10000
    · rw [Text.unitsOfChar_of_lt basic, List.singleton_append, List.cons.injEq] at h
      obtain ⟨rfl, rest⟩ := h
      exact ⟨toLower_of_isDigitOf basic digit, rest⟩
    · obtain ⟨high, low, surrogates, ⟨far, -⟩, -⟩ := Text.unitsOfChar_of_le (Nat.not_lt.1 basic)
      rw [surrogates, List.cons_append, List.cons.injEq] at h
      rw [isDigitOf_iff, ← h.1] at digit
      omega

theorem Spells.map_toLower {cs : List Char} {bs : Bytes} (h : Spells (Text.units cs) bs) :
    cs.map Char.toLower = bs.flatMap byteDigits := by
  generalize hus : Text.units cs = us at h
  induction h generalizing cs with
  | nil =>
    rw [(Text.units_eq_nil_iff cs).1 hus]
    rfl
  | pair hhigh hlow _ ih =>
    obtain ⟨high, cs', rfl, lower, hus'⟩ := eq_cons_of_units hus hhigh
    obtain ⟨low, cs'', rfl, lower', hus''⟩ := eq_cons_of_units hus' hlow
    rw [List.map_cons, List.map_cons, lower, lower', ih hus'']
    rfl

/-- A text is read as the bytes that its plain form is the written form of. -/
theorem decode_eq_ok_iff_plain {t : String} {bs : Bytes} :
    decode t = .ok bs ↔ plain t = ofBytes bs := by
  constructor
  · intro read
    have spelled := (decode_eq_ok_iff.1 read).map_toLower
    rw [plain, spelled, ← toList_ofBytes, String.ofList_toList]
  · intro same
    rw [decode_congr (same.trans (plain_ofBytes bs).symm), decode_ofBytes]

theorem isValid_iff_exists_plain (t : String) : isValid t = true ↔ ∃ bs, plain t = ofBytes bs := by
  simp only [isValid_iff, ← exists_decode_eq_ok_iff, decode_eq_ok_iff_plain]

theorem ofBytes_injective {v w : Bytes} (h : ofBytes v = ofBytes w) : v = w := by
  have read := decode_ofBytes v
  rw [h, decode_ofBytes] at read
  exact (Except.ok.inj read).symm

/-- Bytes are written as two lowercase digits each, and what is written is read as these bytes, also
with blanks put in and with letters in upper case.  Every text that is accepted is the written form
of its bytes up to blanks and case.  Hence no two byte strings are written alike, and two accepted
texts are read alike if and only if they agree up to blanks and case. -/
theorem ofBytes_decode_inverse :
    (∀ v : Bytes,
      (ofBytes v).length = 2 * v.length ∧ (∀ c ∈ (ofBytes v).toList, c ∈ lowerDigits) ∧
      isValid (ofBytes v) = true ∧ decode (ofBytes v) = .ok v ∧
      ∀ t : String, plain t = ofBytes v → isValid t = true ∧ decode t = .ok v) ∧
    (∀ t : String, isValid t = true → ∃ v, decode t = .ok v ∧ ofBytes v = plain t) ∧
    (∀ v w : Bytes, ofBytes v = ofBytes w → v = w) ∧
    ∀ t t' : String, isValid t = true → isValid t' = true →
      (decode t = decode t' ↔ plain t = plain t') := by
  have spelled (v : Bytes) (t : String) (h : plain t = ofBytes v) :
      isValid t = true ∧ decode t = .ok v :=
    ⟨(isValid_iff_exists_plain t).2 ⟨v, h⟩, decode_eq_ok_iff_plain.2 h⟩
  refine ⟨fun v => ?_, fun t valid => ?_, fun v w => ofBytes_injective, fun t t' valid valid' => ?_⟩
  · obtain ⟨valid, read⟩ := spelled v (ofBytes v) (plain_ofBytes v)
    exact ⟨length_ofBytes v, fun c => mem_ofBytes, valid, read, spelled v⟩
  · obtain ⟨v, hv⟩ := (isValid_iff_exists_plain t).1 valid
    exact ⟨v, decode_eq_ok_iff_plain.2 hv, hv.symm⟩
  · refine ⟨fun same => ?_, decode_congr⟩
    obtain ⟨v, hv⟩ := (isValid_iff_exists_plain t').1 valid'
    rw [decode_eq_ok_iff_plain.2 hv, decode_eq_ok_iff_plain] at same
    exact same.trans hv.symm

/-- Two bytes, written with a blank and in upper case. -/
theorem ofBytes_decode_inverse_spaced :
    ofBytes [0x0b, 0xfe] = "0bfe" ∧ isValid "0B FE" = true ∧ decode "0B FE" = .ok [0x0b, 0xfe] ∧
    (decode "0B FE" = decode "0bFE" ↔ plain "0B FE" = plain "0bFE") := by
  obtain ⟨written, -, -, alike⟩ := ofBytes_decode_inverse
  have text : ofBytes [0x0b, 0xfe] = "0bfe" := by decide
  obtain ⟨-, -, -, -, read⟩ := written [0x0b, 0xfe]
  obtain ⟨valid, decoded⟩ := read "0B FE" (by decide)
  exact ⟨text, valid, decoded, alike _ _ valid (read "0bFE" (by decide)).1⟩

end Hex

end PingCodec
