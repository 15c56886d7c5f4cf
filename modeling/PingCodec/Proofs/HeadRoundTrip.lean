import PingCodec.Proofs.Head

/-!
# Headers there and back

A header that was written is read as the header that the wire can hold (`ofBytes_wireBytes`), and a
header that was read is written as the nine bytes that it was read from, all but the reserved bit
(`wireBytes_ofBytes`).  Both rest on the fields: a word and its bytes spell one number.
-/

namespace PingCodec

namespace Head

/-! ## Fields -/

theorem payloadLength?_of_equals {length : Number} {n : Nat}
    (same : length.equals (Number.ofNat n) = true) (small : n ≤ maxPayloadLength) :
    payloadLength? length = some n := by
  rw [payloadLength?, Number.toNat?_of_equals same, Option.filter_some, decide_eq_true small,
    if_pos rfl]

theorem toNat_flagByte (x : Number) :
    (x.toWord &&& 0xff).toUInt8.toNat = (x.truncate % 0x100).toNat := by
  rw [UInt32.toNat_toUInt8, Bytes.toNat_and_lowBits_word (j := 8) rfl, Number.toNat_toWord]
  omega

theorem toNat_streamWord (x : Number) :
    (x.toWord &&& streamIdMask).toNat = (x.truncate % 0x80000000).toNat := by
  rw [Bytes.toNat_and_lowBits_word (j := 31) rfl, Number.toNat_toWord]
  omega

/-- The three bytes of a payload length spell it. -/
theorem value_lengthBytes {n : Nat} (small : n ≤ maxPayloadLength) :
    Bytes.value ([(n >>> 16).toUInt8] ++ Bytes.ofWord16 n.toUInt16) = n := by
  have bound : n ≤ 0xffffff := small
  have low : (Bytes.ofWord16 n.toUInt16).length = 2 := rfl
  have high : Bytes.value [(n >>> 16).toUInt8] = n / 65536 % 256 := by
    rw [← List.nil_append [_], Bytes.value_concat, ← Nat.shiftRight_eq_div_pow n 16]
    exact Nat.zero_add _
  have word : n.toUInt16.toNat = n % 65536 := UInt16.toNat_ofNat'
  rw [Bytes.value_append, low, high, Bytes.value_ofWord16, word]
  omega

/-! ## Reading what was written -/

section Front

variable (h : Head) (n : Nat) (rest : Bytes)

theorem byteAt_kind : (h.wireBytes n ++ rest).byteAt 3 = h.kind.toByte := rfl

theorem byteAt_flags :
    (h.wireBytes n ++ rest).byteAt 4 = (h.flags.toWord &&& 0xff).toUInt8 := rfl

theorem value_stream :
    Bytes.value (((h.wireBytes n ++ rest).drop 5).take 4) % 2 ^ 31 =
      (h.streamId.truncate % 0x80000000).toNat := by
  have field : ((h.wireBytes n ++ rest).drop 5).take 4 =
      Bytes.ofWord32 (h.streamId.toWord &&& streamIdMask) := rfl
  rw [field, Bytes.value_ofWord32, toNat_streamWord]
  omega

variable {n}

theorem value_length (small : n ≤ maxPayloadLength) :
    Bytes.value ((h.wireBytes n ++ rest).take 3) = n :=
  value_lengthBytes small

/-- From the bytes of a header, whatever comes behind, the header that the wire can hold is read. -/
theorem ofBytes_wireBytes (small : n ≤ maxPayloadLength) :
    ParsedHead.ofBytes (h.wireBytes n ++ rest) = ⟨h.onWire, n⟩ := by
  rw [ParsedHead.ofBytes, value_stream, value_length h rest small, byteAt_kind, byteAt_flags,
    Number.ofByte, Number.ofByte, Number.toNat_toByte, toNat_flagByte, onWire]

end Front

/-! ## Writing what was read -/

/-- The bytes of a header with the reserved bit cleared. -/
def clearReserved (bs : Bytes) : Bytes := bs.setByte 5 (bs.byteAt 5 &&& 0x7f)

theorem toNat_and_sevenBits (b : UInt8) : (b &&& 0x7f).toNat = b.toNat % 2 ^ 7 :=
  Bytes.toNat_and_lowBits rfl b

end Head

namespace ParsedHead

theorem length_ofBytes_le (bs : Bytes) : (ofBytes bs).length ≤ maxPayloadLength := by
  have bound := Bytes.value_lt (bs.take 3)
  have three : (bs.take 3).length ≤ 3 := List.length_take_le 3 bs
  have most : 256 ^ (bs.take 3).length ≤ 256 ^ 3 := Nat.pow_le_pow_right (by decide) three
  show Bytes.value (bs.take 3) ≤ 256 ^ 3 - 1
  omega

/-- A header that was read is one that the wire can hold. -/
theorem onWire_ofBytes (bs : Bytes) : (ofBytes bs).head.onWire = (ofBytes bs).head := by
  have kind := (bs.byteAt 3).toNat_lt
  have flags := (bs.byteAt 4).toNat_lt
  simp only [Head.onWire, ofBytes, Number.ofByte, Number.truncate_ofNat]
  congr 2 <;> omega

theorem flagByte_ofBytes (bs : Bytes) :
    ((ofBytes bs).head.flags.toWord &&& 0xff).toUInt8 = bs.byteAt 4 := by
  have bound := (bs.byteAt 4).toNat_lt
  have value : (ofBytes bs).head.flags.truncate = (bs.byteAt 4).toNat := Number.truncate_ofNat _
  rw [← UInt8.toNat_inj, Head.toNat_flagByte, value]
  omega

section Window

variable {bs : Bytes} (long : headerSize ≤ bs.length)

include long

theorem take_drop_header {i n : Nat} (fits : i + n ≤ headerSize) :
    (bs.drop i).take n = (List.range n).map fun k => bs.byteAt (i + k) :=
  Bytes.take_drop_eq_map (Nat.le_trans fits long)

theorem lengthBytes_ofBytes :
    [((ofBytes bs).length >>> 16).toUInt8] ++ Bytes.ofWord16 (ofBytes bs).length.toUInt16 =
      [bs.byteAt 0, bs.byteAt 1, bs.byteAt 2] := by
  have field : bs.take 3 = [bs.byteAt 0, bs.byteAt 1, bs.byteAt 2] :=
    take_drop_header long (show 0 + 3 ≤ headerSize by decide)
  apply Bytes.eq_of_value_eq
  · rfl
  · rw [Head.value_lengthBytes (length_ofBytes_le bs), ← field]
    rfl

theorem streamBytes_ofBytes :
    Bytes.ofWord32 ((ofBytes bs).head.streamId.toWord &&& streamIdMask) =
      [bs.byteAt 5 &&& 0x7f, bs.byteAt 6, bs.byteAt 7, bs.byteAt 8] := by
  have field : (bs.drop 5).take 4 = [bs.byteAt 5, bs.byteAt 6, bs.byteAt 7, bs.byteAt 8] :=
    take_drop_header long (by decide)
  have value : (ofBytes bs).head.streamId.truncate =
      (Bytes.value ((bs.drop 5).take 4) % 2 ^ 31 : Nat) := Number.truncate_ofNat _
  have bounds := And.intro (bs.byteAt 6).toNat_lt
    (And.intro (bs.byteAt 7).toNat_lt (bs.byteAt 8).toNat_lt)
  apply Bytes.eq_of_value_eq
  · rfl
  · rw [Bytes.value_ofWord32, Head.toNat_streamWord, value, field]
    simp only [Bytes.value, List.foldl_cons, List.foldl_nil, Head.toNat_and_sevenBits]
    omega

/-- A header that was read is written as the bytes that it was read from, without the reserved
bit. -/
theorem wireBytes_ofBytes :
    (ofBytes bs).head.wireBytes (ofBytes bs).length = Head.clearReserved (bs.take headerSize) := by
  have front : bs.take headerSize = (List.range 9).map fun k => bs.byteAt (0 + k) :=
    take_drop_header long (show 0 + headerSize ≤ headerSize by decide)
  have kind : (ofBytes bs).head.kind.toByte = bs.byteAt 3 := Number.toByte_ofByte _
  rw [Head.wireBytes, lengthBytes_ofBytes long, kind, flagByte_ofBytes, streamBytes_ofBytes long,
    front]
  rfl

end Window

/-! ## Both ways -/

theorem ofView_eq_ok {v : View} (long : headerSize ≤ v.length) : ofView v = .ok (ofBytes v.toBytes) := by
  rw [ofView_eq, if_neg (by rw [View.length_toBytes]; exact Nat.not_lt.2 long)]

theorem ofView_wireBytes {h : Head} {n : Nat} {v : View} {rest : Bytes}
    (front : v.toBytes = h.wireBytes n ++ rest) (small : n ≤ maxPayloadLength) :
    ofView v = .ok ⟨h.onWire, n⟩ := by
  have long : headerSize ≤ v.length := by
    rw [← View.length_toBytes, front, List.length_append, Head.length_wireBytes]
    exact Nat.le_add_right _ _
  rw [ofView_eq_ok long, front, Head.ofBytes_wireBytes h rest small]

theorem ofView_eq_incompleteHeader_iff (v : View) :
    (∃ e, ofView v = .error e ∧ e.code = .incompleteHeader) ↔ v.length < headerSize := by
  constructor
  · rintro ⟨e, failed, -⟩
    by_contra long
    rw [ofView_eq_ok (Nat.not_lt.1 long)] at failed
    cases failed
  · intro short
    exact ⟨.shortHeader v.length, if_pos short, rfl⟩

/-- Headers keep on the wire what the wire can hold of them, which is everything if the fields are in
range, and the wire keeps all of its bytes but the reserved bit. -/
theorem ofView_encode :
    (∀ (h : Head) (length : Number) (n : Nat), length.equals (Number.ofNat n) = true →
      n ≤ 0xffffff → ∃ bs, h.encode length = .ok bs ∧
        ∀ v : View, v.toBytes = bs → ofView v = .ok ⟨h.onWire, n⟩) ∧
    (∀ x : Number, x.isNaN = true ∨ x.isInfinite = true → x.truncate = 0) ∧
    (∀ (h : Head) (kind flags stream : Nat), kind ≤ 0xff → flags ≤ 0xff → stream ≤ 0x7fffffff →
      h.kind.equals (Number.ofNat kind) = true → h.flags.equals (Number.ofNat flags) = true →
      h.streamId.equals (Number.ofNat stream) = true →
      h.onWire = ⟨Number.ofNat kind, Number.ofNat flags, Number.ofNat stream⟩) ∧
    (∀ v : View, 9 ≤ v.length → ∃ parsed bs, ofView v = .ok parsed ∧
      parsed.head.encode (Number.ofNat parsed.length) = .ok bs ∧
      bs = Head.clearReserved (v.toBytes.take 9) ∧
      ∀ w : View, w.toBytes = bs → ofView w = .ok parsed) ∧
    ∀ v : View, (∃ e, ofView v = .error e ∧ e.code = .incompleteHeader) ↔ v.length < 9 := by
  refine ⟨fun h length n same small => ?_, fun x infinite => ?_,
    fun h kind flags stream kindBound flagsBound streamBound sameKind sameFlags sameStream => ?_,
    fun v long => ?_, ofView_eq_incompleteHeader_iff⟩
  · refine ⟨_, Head.encode_eq (Head.payloadLength?_of_equals same small), fun v written => ?_⟩
    exact ofView_wireBytes (written.trans (List.append_nil _).symm) small
  · cases x <;> simp [Number.isNaN, Number.isInfinite, Number.truncate, Number.toRat?] at infinite ⊢
  · rw [Head.onWire, Number.truncate_of_equals sameKind, Number.truncate_of_equals sameFlags,
      Number.truncate_of_equals sameStream]
    congr 2 <;> omega
  · have long' : headerSize ≤ v.toBytes.length := by rwa [View.length_toBytes]
    have fits : payloadLength? (Number.ofNat (ofBytes v.toBytes).length) =
        some (ofBytes v.toBytes).length :=
      Head.payloadLength?_of_equals (by rw [Number.equals_ofNat, beq_self_eq_true])
        (length_ofBytes_le _)
    refine ⟨_, _, ofView_eq_ok long, Head.encode_eq fits, wireBytes_ofBytes long', fun w written => ?_⟩
    rw [ofView_wireBytes (written.trans (List.append_nil _).symm) (length_ofBytes_le _),
      onWire_ofBytes]

/-- A header of numbers that are no bytes and no stream. -/
theorem ofView_encode_truncated :
    let h : Head := ⟨.rational (-1), .nan, .rational (4294967307/2)⟩
    ∃ bs, h.encode (Number.ofNat 8) = .ok bs ∧
      ofView (View.whole bs) = .ok ⟨⟨Number.ofNat 255, Number.ofNat 0, Number.ofNat 5⟩, 8⟩ := by
  intro h
  have onWire : h.onWire = ⟨Number.ofNat 255, Number.ofNat 0, Number.ofNat 5⟩ := by decide +kernel
  obtain ⟨bs, written, read⟩ :=
    ofView_encode.1 h (Number.ofNat 8) 8 (by decide +kernel) (by decide)
  refine ⟨bs, written, ?_⟩
  rw [read _ (View.toBytes_whole bs), onWire]

end ParsedHead

end PingCodec
