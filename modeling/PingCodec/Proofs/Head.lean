import PingCodec.Frame.Head
import PingCodec.Proofs.Bytes
import PingCodec.Proofs.Number

/-!
# Headers on the wire

Writing a header is writing its nine bytes over the buffer (`run_store`), at the place that `View.place`
names and nowhere else (`put_eq_ok_iff`); a header that is refused leaves the buffer as it is
(`buffer_of_put_error`).  Reading one takes the fields from the first nine bytes of a view, whatever lies
around it (`ofView_eq`).
-/

namespace PingCodec

/-! ## Writing -/

namespace Head

/-- The nine bytes of a header for a payload of the given length. -/
def wireBytes (h : Head) (length : Nat) : Bytes :=
  [(length >>> 16).toUInt8] ++ Bytes.ofWord16 length.toUInt16 ++ [h.kind.toByte] ++
    [(h.flags.toWord &&& 0xff).toUInt8] ++ Bytes.ofWord32 (h.streamId.toWord &&& streamIdMask)

theorem length_wireBytes (h : Head) (length : Nat) : (h.wireBytes length).length = headerSize := rfl

/-- Storing a header field by field is writing its nine bytes. -/
theorem run_store {buffer : Bytes} {i : Nat} (fits : i + headerSize ≤ buffer.length) (h : Head)
    (length : Nat) :
    (h.store length i).run buffer = ((), buffer.overwrite i (h.wireBytes length)) := by
  replace fits : i + 9 ≤ buffer.length := fits
  have stores : (h.store length i).run buffer =
      ((), buffer
        |>.setByte i (length >>> 16).toUInt8
        |>.setWord16 (i + 1) length.toUInt16
        |>.setByte (i + 3) h.kind.toByte
        |>.setByte (i + 4) (h.flags.toWord &&& 0xff).toUInt8
        |>.setWord32 (i + 5) (h.streamId.toWord &&& streamIdMask)) :=
    rfl
  rw [stores, @Bytes.setByte_eq_overwrite buffer i (by omega),
    Bytes.setWord16_overwrite (by rfl) (by omega), Bytes.setByte_overwrite (by rfl) (by omega),
    Bytes.setByte_overwrite (by rfl) (by omega), Bytes.setWord32_overwrite (by rfl) (by omega)]
  rfl

theorem withoutFraction_eq_ofNat_iff (x : Number) (i : Nat) :
    x.withoutFraction = Number.ofNat i ↔
      x.withoutFraction.isInfinite = false ∧ x.withoutFraction.truncate = i := by
  have whole (q : Int) : Number.rational q = Number.ofNat i ↔ q = i := by
    rw [Number.ofNat, Number.rational.injEq, ← Rat.intCast_natCast, Rat.intCast_inj]
  cases x with
  | infinity s => simp [Number.withoutFraction, Number.isInfinite, Number.ofNat]
  | nan | negativeZero | rational q =>
    rw [Number.truncate_withoutFraction]
    simp only [Number.withoutFraction, Number.isInfinite, true_and]
    exact whole _

section Put

variable (h : Head) (length : Number) (dst : View) (offset : Number) (buffer : Bytes)

theorem run_put_of_unfit (unfit : payloadLength? length = none) :
    (h.put length dst offset).run buffer = (.error (.lengthOutOfRange length), buffer) := by
  rw [put, unfit]
  rfl

variable {length} {n : Nat} (fits : payloadLength? length = some n)

include fits

/-- What is written where, once the length is seen to fit: the two checks of the place come before any
store. -/
theorem run_put_of_fits :
    (h.put length dst offset).run buffer =
      if (dst.place offset).isInfinite ∨ (dst.place offset).truncate < 0 ∨
          (buffer.length : Int) < (dst.place offset).truncate then
        (.error (.startOutOfBounds (dst.place offset)), buffer)
      else if (buffer.length : Int) < (dst.place offset).truncate + headerSize then
        (.error .noRoom, buffer)
      else (.ok (), ((h.store n (dst.place offset).truncate.toNat).run buffer).2) := by
  rw [put, fits]
  split_ifs with outside noRoom
  · show (if _ then _ else _ : ExceptT WriteError (StateM Bytes) Unit).run buffer = _
    rw [if_pos outside]
    rfl
  · show (if _ then _ else if _ then _ else _ : ExceptT WriteError (StateM Bytes) Unit).run buffer = _
    rw [if_neg outside, if_pos noRoom]
    rfl
  · show (if _ then _ else if _ then _ else _ : ExceptT WriteError (StateM Bytes) Unit).run buffer = _
    rw [if_neg outside, if_neg noRoom]
    rfl

end Put

/-- A header that is refused has stored nothing. -/
theorem buffer_of_put_error {h : Head} {length offset : Number} {dst : View} {buffer after : Bytes}
    {e : WriteError} (failed : (h.put length dst offset).run buffer = (.error e, after)) :
    after = buffer := by
  cases fits : payloadLength? length with
  | none =>
    rw [h.run_put_of_unfit length dst offset buffer fits] at failed
    exact (congrArg Prod.snd failed).symm
  | some n =>
    rw [h.run_put_of_fits dst offset buffer fits] at failed
    split_ifs at failed with outside noRoom
    · exact (congrArg Prod.snd failed).symm
    · exact (congrArg Prod.snd failed).symm
    · cases congrArg Prod.fst failed

/-- A header is written if its length fits, its place is a position of the buffer and there is room
behind it; the buffer then differs in nine bytes at most. -/
theorem put_eq_ok_iff {h : Head} {length offset : Number} {dst : View} {buffer after : Bytes} :
    (h.put length dst offset).run buffer = (.ok (), after) ↔
      ∃ n i : Nat, payloadLength? length = some n ∧ dst.place offset = Number.ofNat i ∧
        i + headerSize ≤ buffer.length ∧ after = buffer.overwrite i (h.wireBytes n) := by
  have named (i : Nat) := withoutFraction_eq_ofNat_iff ((Number.ofNat dst.start).add offset) i
  rw [← View.place] at named
  constructor
  · intro written
    cases fits : payloadLength? length with
    | none =>
      rw [h.run_put_of_unfit length dst offset buffer fits] at written
      cases congrArg Prod.fst written
    | some n =>
      rw [h.run_put_of_fits dst offset buffer fits] at written
      split_ifs at written with outside noRoom
      · cases congrArg Prod.fst written
      · cases congrArg Prod.fst written
      obtain ⟨finite, inside⟩ := not_or.1 outside
      obtain ⟨i, hi⟩ := Int.eq_ofNat_of_zero_le (by omega : 0 ≤ (dst.place offset).truncate)
      refine ⟨n, i, rfl, (named i).2 ⟨by simpa using finite, hi⟩, by omega, ?_⟩
      rw [hi, Int.toNat_natCast, run_store (by omega)] at written
      exact (congrArg Prod.snd written).symm
  · rintro ⟨n, i, fits, place, room, rfl⟩
    obtain ⟨finite, position⟩ := (named i).1 place
    rw [h.run_put_of_fits dst offset buffer fits, position, if_neg (by simp [finite]; omega),
      if_neg (by omega), Int.toNat_natCast, run_store room]

theorem write_of_put_error {h : Head} {length offset : Number} {dst : View} {e : WriteError}
    {after : Bytes} (failed : (h.put length dst offset).run dst.buffer = (.error e, after)) :
    h.write length dst offset = .error e := by
  rw [write, failed]

theorem write_eq_ok_iff {h : Head} {length offset : Number} {dst : View} {after : Bytes} :
    h.write length dst offset = .ok after ↔
      ∃ n i : Nat, payloadLength? length = some n ∧ dst.place offset = Number.ofNat i ∧
        i + headerSize ≤ dst.buffer.length ∧ after = dst.buffer.overwrite i (h.wireBytes n) := by
  rw [← put_eq_ok_iff, write]
  rcases (h.put length dst offset).run dst.buffer with ⟨e | u, buffer⟩
  · exact iff_of_false nofun fun same => nomatch congrArg Prod.fst same
  · exact ⟨fun same => congrArg (Prod.mk _) (Except.ok.inj same), fun same =>
      congrArg Except.ok (congrArg Prod.snd same)⟩

theorem place_whole_zero (bs : Bytes) : (View.whole bs).place (Number.ofNat 0) = Number.ofNat 0 := by
  show ((Number.ofNat 0).add (Number.ofNat 0)).withoutFraction = Number.ofNat 0
  decide +kernel

/-- A header by itself is its nine bytes. -/
theorem encode_eq {h : Head} {length : Number} {n : Nat} (fits : payloadLength? length = some n) :
    h.encode length = .ok (h.wireBytes n) := by
  rw [encode, write_eq_ok_iff]
  refine ⟨n, 0, fits, place_whole_zero _, by simp [View.whole, Bytes.zeros], ?_⟩
  exact (Bytes.overwrite_zero (by simp [View.whole, Bytes.zeros, length_wireBytes])).symm

end Head

/-! ## Reading -/

namespace ParsedHead

/-- The header that the first nine bytes of a byte string spell. -/
def ofBytes (bs : Bytes) : ParsedHead where
  head :=
    { kind := Number.ofByte (bs.byteAt 3)
      flags := Number.ofByte (bs.byteAt 4)
      streamId := Number.ofNat (Bytes.value ((bs.drop 5).take 4) % 2 ^ 31) }
  length := Bytes.value (bs.take 3)

/-- The header of a view is that of its bytes. -/
theorem ofView_eq (v : View) :
    ofView v =
      if v.toBytes.length < headerSize then .error (.shortHeader v.toBytes.length)
      else .ok (ofBytes v.toBytes) := by
  rw [ofView, View.length_toBytes]
  split_ifs with short
  · rfl
  · have long : 9 ≤ v.length := Nat.not_lt.1 short
    have long' : 9 ≤ v.toBytes.length := by rwa [View.length_toBytes]
    have stream : (v.buffer.word32At (v.start + 5) &&& streamIdMask).toNat =
        Bytes.value ((v.toBytes.drop 5).take 4) % 2 ^ 31 := by
      rw [← View.word32At_toBytes (by omega), Bytes.toNat_and_lowBits_word (j := 31) rfl,
        ← Bytes.toNat_word32At_eq_value (by omega)]
    have length : (v.buffer.byteAt v.start).toNat <<< 16 |||
        (v.buffer.word16At (v.start + 1)).toNat = Bytes.value (v.toBytes.take 3) := by
      have low : (v.buffer.word16At (v.start + 1)).toNat < 2 ^ 16 := UInt16.toNat_lt _
      rw [← Nat.shiftLeft_add_eq_or_of_lt low, Nat.shiftLeft_eq, Bytes.value_take_three (by omega),
        View.word16At_toBytes (by omega), View.byteAt_toBytes (by omega)]
      rfl
    rw [stream, length, ← View.byteAt_toBytes (by omega), ← View.byteAt_toBytes (by omega), ofBytes]

end ParsedHead

end PingCodec
