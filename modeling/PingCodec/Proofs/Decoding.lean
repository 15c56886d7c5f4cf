import PingCodec.Proofs.DecimalText
import PingCodec.Proofs.Head
import PingCodec.Proofs.Ping

/-!
# Decoding frames

Reading a frame looks at five things one after the other, and the first fault decides the error
(`ofFrame_eq`).  Everything is said of the bytes of the view: its header fields are the big-endian
numbers that `Bytes.value` finds at their places.
-/

namespace PingCodec.Ping

/-! ## Fields of a frame -/

/-- The payload length that a frame declares. -/
def declaredLength (bs : Bytes) : Nat := Bytes.value (bs.take 3)

/-- The stream that a frame names, without the reserved bit. -/
def streamNumber (bs : Bytes) : Nat := Bytes.value ((bs.drop 5).take 4) % 2 ^ 31

theorem isPing_ofBytes (bs : Bytes) :
    (ParsedHead.ofBytes bs).head.isPing = (bs.byteAt 3 == 6) := by
  rw [Head.isPing, ParsedHead.ofBytes, Number.ofByte, Number.equals_ofNat]
  rw [Bool.eq_iff_iff, beq_iff_eq, beq_iff_eq, ← UInt8.toNat_inj]
  rfl

theorem onConnection_ofBytes (bs : Bytes) :
    (ParsedHead.ofBytes bs).head.onConnection = (streamNumber bs == 0) :=
  Number.equals_ofNat _ _

theorem isAck_ofBytes (bs : Bytes) :
    (ParsedHead.ofBytes bs).head.isAck = (bs.byteAt 4).toNat.testBit 0 := by
  obtain ⟨n, hn⟩ : ∃ n, n = (bs.byteAt 4).toNat := ⟨_, rfl⟩
  have bit : (UInt32.ofNat n &&& ackFlag).toNat = n % 2 := by
    rw [UInt32.toNat_and, UInt32.toNat_ofNat']
    show n % 2 ^ 32 &&& 1 = n % 2
    rw [Nat.and_one_is_mod]
    omega
  show ((Number.ofNat (bs.byteAt 4).toNat).toWord &&& ackFlag != 0) = _
  rw [← hn, Number.toWord_ofNat, Nat.testBit_zero, Bool.eq_iff_iff, bne_iff_ne, decide_eq_true_eq,
    ne_eq, ← UInt32.toNat_inj, bit]
  show ¬ n % 2 = 0 ↔ n % 2 = 1
  omega

/-- Behind a header that names no stream, the payload size alone decides. -/
theorem load_ofBytes {v : View} (stream : streamNumber v.toBytes = 0) :
    load (ParsedHead.ofBytes v.toBytes).head (v.drop headerSize) =
      if v.toBytes.length - headerSize ≠ payloadSize then
        .error (.frame (.payloadSize (v.toBytes.length - headerSize)))
      else .ok ⟨(v.toBytes.byteAt 4).toNat.testBit 0,
        (Payload.atPosition v.toBytes headerSize).entries⟩ := by
  have behind : (v.drop headerSize).toBytes = v.toBytes.drop headerSize := View.toBytes_drop v _
  have payload : Payload.atPosition (v.toBytes.drop headerSize) 0 =
      Payload.atPosition v.toBytes headerSize := by
    simp only [Payload.atPosition, Bytes.byteAt_drop, Nat.zero_add]
  rw [load_eq, onConnection_ofBytes, isAck_ofBytes, behind, payload, List.length_drop,
    if_pos (beq_iff_eq.2 stream), ite_not]

/-- What comes of reading a frame: the first thing that is wrong with it, or else the PING. -/
theorem ofFrame_eq (v : View) :
    ofFrame v =
      if v.toBytes.length < headerSize then .error (.frame (.shortHeader v.toBytes.length))
      else if v.toBytes.byteAt 3 ≠ 6 then
        .error (.frame (.notPing (Number.ofByte (v.toBytes.byteAt 3))))
      else if streamNumber v.toBytes ≠ 0 then
        .error (.frame (.onStream (Number.ofNat (streamNumber v.toBytes))))
      else if v.toBytes.length - headerSize ≠ declaredLength v.toBytes then
        .error (.frame (.declaredSize (declaredLength v.toBytes) (v.toBytes.length - headerSize)))
      else if v.toBytes.length - headerSize ≠ payloadSize then
        .error (.frame (.payloadSize (v.toBytes.length - headerSize)))
      else .ok ⟨(v.toBytes.byteAt 4).toNat.testBit 0,
        (Payload.atPosition v.toBytes headerSize).entries⟩ := by
  have size : (v.drop headerSize).length = v.toBytes.length - headerSize := by
    rw [← View.length_toBytes, View.toBytes_drop, List.length_drop]
  have kindTest : (!(ParsedHead.ofBytes v.toBytes).head.isPing) = true ↔ v.toBytes.byteAt 3 ≠ 6 := by
    rw [isPing_ofBytes, Bool.not_eq_true', beq_eq_false_iff_ne]
  have streamTest : (!(ParsedHead.ofBytes v.toBytes).head.onConnection) = true ↔
      streamNumber v.toBytes ≠ 0 := by
    rw [onConnection_ofBytes, Bool.not_eq_true', beq_eq_false_iff_ne]
  rw [ofFrame, ParsedHead.ofView_eq]
  by_cases short : v.toBytes.length < headerSize
  · rw [if_pos short, if_pos short]
  · rw [if_neg short, if_neg short]
    show (if (!(ParsedHead.ofBytes v.toBytes).head.isPing) = true then _
      else if (!(ParsedHead.ofBytes v.toBytes).head.onConnection) = true then _
      else if (v.drop headerSize).length ≠ declaredLength v.toBytes then _ else _) = _
    rw [size]
    simp only [kindTest, streamTest]
    by_cases stream : streamNumber v.toBytes = 0
    · rw [← load_ofBytes stream]
      rfl
    · simp only [ne_eq, stream, not_false_eq_true, if_true]
      rfl

/-! ## Refusing and accepting -/

/-- That a view is refused, with a code, the reason to give to the peer, and a text. -/
def Refused (v : View) (code : ErrorCode) (reason : Reason) (message : String) : Prop :=
  ∃ e : FrameError,
    ofFrame v = .error (.frame e) ∧ e.code = code ∧ e.reason = reason ∧ e.message = message

theorem message_notPing (b : UInt8) :
    (FrameError.notPing (Number.ofByte b)).message =
      "Expected PING frame (0x6), got 0x" ++ String.ofList (Nat.toDigits 16 b.toNat) := by
  rw [← Number.hexDigits_ofByte]
  rfl

theorem message_onStream {n : Nat} (small : n < 2 ^ 31) :
    (FrameError.onStream (Number.ofNat n)).message = "PING frame on stream " ++ toString n := by
  rw [← Number.text_ofNat (Nat.lt_trans small (by norm_num))]
  rfl

theorem streamNumber_lt (bs : Bytes) : streamNumber bs < 2 ^ 31 :=
  Nat.mod_lt _ (Nat.two_pow_pos 31)

/-- The first four bytes spell the declared length and the frame type. -/
theorem take_four_eq_iff {bs : Bytes} (long : 4 ≤ bs.length) :
    bs.take 4 = [0, 0, 8, 6] ↔ declaredLength bs = payloadSize ∧ bs.byteAt 3 = 6 := by
  have front : bs.take 4 = [bs.byteAt 0, bs.byteAt 1, bs.byteAt 2, bs.byteAt 3] := by
    have window := Bytes.take_drop_eq_map (show 0 + 4 ≤ bs.length by omega)
    simpa [List.range_succ] using window
  rw [front, declaredLength, Bytes.value_take_three (by omega), Bytes.toNat_word16At]
  simp only [List.cons.injEq, and_true, ← UInt8.toNat_inj]
  show (bs.byteAt 0).toNat = 0 ∧ (bs.byteAt 1).toNat = 0 ∧ (bs.byteAt 2).toNat = 8 ∧
    (bs.byteAt 3).toNat = 6 ↔
      (bs.byteAt 0).toNat * 65536 + ((bs.byteAt 1).toNat * 256 + (bs.byteAt 2).toNat) = 8 ∧
        (bs.byteAt 3).toNat = 6
  omega

/-! The outcome in each case. -/

section Outcome

variable {v : View}

theorem refused_of_short (short : v.toBytes.length < headerSize) :
    ofFrame v = .error (.frame (.shortHeader v.toBytes.length)) := by
  rw [ofFrame_eq, if_pos short]

variable (long : headerSize ≤ v.toBytes.length)

include long

theorem refused_of_kind (kind : v.toBytes.byteAt 3 ≠ 6) :
    ofFrame v = .error (.frame (.notPing (Number.ofByte (v.toBytes.byteAt 3)))) := by
  rw [ofFrame_eq, if_neg (Nat.not_lt.2 long), if_pos kind]

variable (kind : v.toBytes.byteAt 3 = 6)

include kind

theorem refused_of_stream (stream : streamNumber v.toBytes ≠ 0) :
    ofFrame v = .error (.frame (.onStream (Number.ofNat (streamNumber v.toBytes)))) := by
  rw [ofFrame_eq, if_neg (Nat.not_lt.2 long), if_neg (not_not.2 kind), if_pos stream]

variable (stream : streamNumber v.toBytes = 0)

include stream

theorem refused_of_declared (declared : v.toBytes.length - headerSize ≠ declaredLength v.toBytes) :
    ofFrame v = .error (.frame
      (.declaredSize (declaredLength v.toBytes) (v.toBytes.length - headerSize))) := by
  rw [ofFrame_eq, if_neg (Nat.not_lt.2 long), if_neg (not_not.2 kind), if_neg (not_not.2 stream),
    if_pos declared]

variable (declared : v.toBytes.length - headerSize = declaredLength v.toBytes)

include declared

theorem refused_of_size (size : v.toBytes.length - headerSize ≠ payloadSize) :
    ofFrame v = .error (.frame (.payloadSize (v.toBytes.length - headerSize))) := by
  rw [ofFrame_eq, if_neg (Nat.not_lt.2 long), if_neg (not_not.2 kind), if_neg (not_not.2 stream),
    if_neg (not_not.2 declared), if_pos size]

theorem accepted_of_size (size : v.toBytes.length - headerSize = payloadSize) :
    ofFrame v = .ok ⟨(v.toBytes.byteAt 4).toNat.testBit 0,
      (Payload.atPosition v.toBytes headerSize).entries⟩ := by
  rw [ofFrame_eq, if_neg (Nat.not_lt.2 long), if_neg (not_not.2 kind), if_neg (not_not.2 stream),
    if_neg (not_not.2 declared), if_neg (not_not.2 size)]

end Outcome

/-- What is read from a frame: seventeen bytes with two fixed fields and no stream. -/
theorem ofFrame_eq_ok_iff {v : View} {p : Ping} :
    ofFrame v = .ok p ↔
      (v.toBytes.length = 17 ∧ v.toBytes.take 4 = [0, 0, 8, 6] ∧ streamNumber v.toBytes = 0) ∧
        p = ⟨(v.toBytes.byteAt 4).toNat.testBit 0,
          (Payload.atPosition v.toBytes headerSize).entries⟩ := by
  constructor
  · intro accepted
    rw [ofFrame_eq] at accepted
    split_ifs at accepted with short kind stream declared size
    rw [not_not] at kind stream declared size
    have long : 9 ≤ v.toBytes.length := Nat.not_lt.1 short
    have size' : v.toBytes.length - 9 = 8 := size
    refine ⟨⟨by omega, (take_four_eq_iff (by omega)).2 ⟨declared.symm.trans size, kind⟩, stream⟩, ?_⟩
    exact (Except.ok.inj accepted).symm
  · rintro ⟨⟨length, front, stream⟩, rfl⟩
    obtain ⟨declared, kind⟩ := (take_four_eq_iff (by omega)).1 front
    have long : headerSize ≤ v.toBytes.length := by rw [length]; decide
    have size : v.toBytes.length - headerSize = payloadSize := by
      rw [length]
      rfl
    exact accepted_of_size long kind stream (size.trans declared.symm) size

/-- No entry that comes out of a frame is refused. -/
theorem frame_of_ofFrame_eq_error {v : View} {e : PingError} (failed : ofFrame v = .error e) :
    ∃ f, e = .frame f := by
  rw [ofFrame_eq] at failed
  split_ifs at failed <;> exact ⟨_, (Except.error.inj failed).symm⟩

theorem toList_entries_atPosition {bs : Bytes} {i : Nat} (fits : i + payloadSize ≤ bs.length) :
    (Payload.atPosition bs i).entries.toList =
      ((bs.drop i).take payloadSize).map Number.ofByte := by
  rw [← Payload.toBytes_atPosition fits, Payload.entries, Vector.toList_map]
  rfl

/-- Reading a frame accepts exactly the PING frames: seventeen bytes that begin with the declared
length eight and the type six and name no stream.  Of everything else it names the first fault, in
the order header, type, stream, size, and no other kind of error comes out of it. -/
theorem ofFrame_outcome (v : View) :
    (v.toBytes.length < 9 →
      Refused v .incompleteHeader .frameSizeError
        s!"Frame header needs 9 bytes, got {v.toBytes.length}") ∧
    (9 ≤ v.toBytes.length → v.toBytes.byteAt 3 ≠ 6 →
      Refused v .unexpectedKind .protocolError
        ("Expected PING frame (0x6), got 0x" ++
          String.ofList (Nat.toDigits 16 (v.toBytes.byteAt 3).toNat))) ∧
    (9 ≤ v.toBytes.length → v.toBytes.byteAt 3 = 6 → streamNumber v.toBytes ≠ 0 →
      Refused v .invalidStreamId .protocolError
        ("PING frame on stream " ++ toString (streamNumber v.toBytes))) ∧
    (9 ≤ v.toBytes.length → v.toBytes.byteAt 3 = 6 → streamNumber v.toBytes = 0 →
      (v.toBytes.length - 9 ≠ declaredLength v.toBytes ∨ v.toBytes.length - 9 ≠ 8) →
      Refused v .badFrameSize .frameSizeError
        (if v.toBytes.length - 9 ≠ declaredLength v.toBytes then
          s!"Header declares {declaredLength v.toBytes} payload bytes, got {v.toBytes.length - 9}"
        else s!"PING payload must be 8 bytes, got {v.toBytes.length - 9}")) ∧
    (9 ≤ v.toBytes.length → v.toBytes.byteAt 3 = 6 → streamNumber v.toBytes = 0 →
      v.toBytes.length - 9 = declaredLength v.toBytes → v.toBytes.length - 9 = 8 →
      ∃ p, ofFrame v = .ok p ∧ p.ack = (v.toBytes.byteAt 4).toNat.testBit 0 ∧
        p.entries.toList = ((v.toBytes.drop 9).take 8).map Number.ofByte) ∧
    ((∃ p, ofFrame v = .ok p) ↔
      v.toBytes.length = 17 ∧ v.toBytes.take 4 = [0, 0, 8, 6] ∧ streamNumber v.toBytes = 0) ∧
    ∀ e, ofFrame v = .error e → ∃ f, e = .frame f := by
  refine ⟨fun short => ⟨_, refused_of_short short, rfl, rfl, rfl⟩,
    fun long kind => ⟨_, refused_of_kind long kind, rfl, rfl, message_notPing _⟩,
    fun long kind stream => ⟨_, refused_of_stream long kind stream, rfl, rfl,
      message_onStream (streamNumber_lt _)⟩, fun long kind stream size => ?_,
    fun long kind stream declared size =>
      ⟨_, accepted_of_size long kind stream declared size, rfl, ?_⟩, ⟨?_, ?_⟩, ?_⟩
  · by_cases declared : v.toBytes.length - 9 = declaredLength v.toBytes
    · rw [if_neg (not_not.2 declared)]
      have size : v.toBytes.length - 9 ≠ 8 := size.resolve_left (not_not.2 declared)
      exact ⟨_, refused_of_size long kind stream declared size, rfl, rfl, rfl⟩
    · rw [if_pos declared]
      exact ⟨_, refused_of_declared long kind stream declared, rfl, rfl, rfl⟩
  · have size' : v.toBytes.length - 9 = 8 := size
    exact toList_entries_atPosition (by show 9 + 8 ≤ _; omega)
  · rintro ⟨p, accepted⟩
    exact (ofFrame_eq_ok_iff.1 accepted).1
  · intro fields
    exact ⟨_, ofFrame_eq_ok_iff.2 ⟨fields, rfl⟩⟩
  · intro e failed
    exact frame_of_ofFrame_eq_error failed

end PingCodec.Ping
