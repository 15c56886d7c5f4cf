import PingCodec.Proofs.Binary64Text
import PingCodec.Proofs.IgnoredBits

/-!
# Loading a frame in two parts

A PING can be made from a header that was split off before and its payload, or from the bytes of the
two.  Both ways come down to loading the payload with a header that names no stream (`load_eq_of_stream`,
`ofFrame_eq_load`).  They part only over the stream: loading looks at the number, reading at the 31 bits
that the wire holds of it.
-/

namespace PingCodec.Ping

/-! ## Outcomes -/

/-- That two readings end in equal PINGs or are refused with one code. -/
inductive SameOutcome : Except PingError Ping → Except PingError Ping → Prop
  | ping {p q : Ping} (equal : p.equals q = true) : SameOutcome (.ok p) (.ok q)
  | refused {e f : FrameError} (code : e.code = f.code) :
      SameOutcome (.error (.frame e)) (.error (.frame f))

/-- That two readings end in equal PINGs or are refused with one code and one text. -/
inductive Agree : Except PingError Ping → Except PingError Ping → Prop
  | ping {p q : Ping} (equal : p.equals q = true) : Agree (.ok p) (.ok q)
  | refused {e f : FrameError} (code : e.code = f.code) (message : e.message = f.message) :
      Agree (.error (.frame e)) (.error (.frame f))

theorem Agree.sameOutcome {x y : Except PingError Ping} (agree : Agree x y) : SameOutcome x y := by
  cases agree with
  | ping equal => exact .ping equal
  | refused code _ => exact .refused code

/-! ## Loading -/

/-- Whatever the stream, the flags and the payload are taken as on no stream. -/
theorem load_eq_of_stream (h : Head) (payload : View) :
    load h payload =
      if h.onConnection then load { h with streamId := Number.ofNat noStream } payload
      else .error (.frame (.onStream h.streamId)) := by
  rw [load_eq, load_eq { h with streamId := Number.ofNat noStream }]
  rfl

theorem agree_load_self (h : Head) (payload : View) : Agree (load h payload) (load h payload) := by
  rw [load_eq]
  split_ifs
  · exact .ping (equals_entries_iff.2 ⟨rfl, rfl⟩)
  · exact .refused rfl rfl
  · exact .refused rfl rfl

/-! ## Reading -/

theorem isAck_eq_testBit (h : Head) :
    h.isAck = (h.flags.toWord &&& 0xff).toUInt8.toNat.testBit 0 := by
  have bit : (h.flags.toWord &&& ackFlag).toNat = h.flags.toWord.toNat % 2 ^ 1 :=
    Bytes.toNat_and_lowBits_word rfl _
  rw [Head.isAck, Head.toNat_flagByte, Nat.testBit_zero, Bool.eq_iff_iff, bne_iff_ne,
    decide_eq_true_eq, ne_eq, ← UInt32.toNat_inj, bit, Number.toNat_toWord]
  show ¬ (h.flags.truncate % 2 ^ 32).toNat % 2 = 0 ↔ _
  omega

/-- The stream that the wire holds of a header. -/
def wireStream (h : Head) : Nat := (h.streamId.truncate % 0x80000000).toNat

/-- The bytes of a header and a payload are read as the payload is loaded with that header, once the
stream on the wire is none. -/
theorem ofFrame_eq_load {h : Head} {payload frame : View} (kind : h.kind.truncate % 0x100 = 6)
    (small : payload.length ≤ maxPayloadLength)
    (front : frame.toBytes = h.wireBytes payload.length ++ payload.toBytes) :
    ofFrame frame =
      if wireStream h = 0 then load { h with streamId := Number.ofNat noStream } payload
      else .error (.frame (.onStream (Number.ofNat (wireStream h)))) := by
  have length : frame.toBytes.length = headerSize + payload.length := by
    rw [front, List.length_append, Head.length_wireBytes, View.length_toBytes]
  have long : ¬ frame.toBytes.length < headerSize := by omega
  have behind : frame.toBytes.length - headerSize = payload.length := by omega
  have type : frame.toBytes.byteAt 3 = 6 := by
    rw [front, Head.byteAt_kind, ← UInt8.toNat_inj, Number.toNat_toByte, kind]
    rfl
  have stream : streamNumber frame.toBytes = wireStream h := by
    rw [front]
    exact Head.value_stream h _ _
  have declared : declaredLength frame.toBytes = payload.length := by
    rw [front]
    exact Head.value_length h _ small
  have ack : (frame.toBytes.byteAt 4).toNat.testBit 0 = h.isAck := by
    rw [front, Head.byteAt_flags, isAck_eq_testBit]
  have content : Payload.atPosition frame.toBytes headerSize =
      Payload.atPosition payload.toBytes 0 := by
    have rest : payload.toBytes = frame.toBytes.drop headerSize := by
      rw [front]
      exact (List.drop_left' (Head.length_wireBytes h _)).symm
    simp only [rest, Payload.atPosition, Bytes.byteAt_drop, Nat.zero_add]
  have connection : { h with streamId := Number.ofNat noStream }.onConnection = true := rfl
  rw [ofFrame_eq, if_neg long, if_neg (not_not.2 type), stream, behind, declared,
    if_neg (not_not.2 rfl), ack, content, load_eq, if_pos connection, View.length_toBytes, ite_not,
    ite_not]
  rfl

/-! ## The stream -/

theorem onConnection_iff (h : Head) :
    h.onConnection = true ↔ h.streamId = Number.ofNat 0 ∨ h.streamId = Number.negativeZero := by
  constructor
  · intro same
    rcases Number.eq_of_equals_ofNat same with plain | ⟨negative, -⟩
    · exact .inl plain
    · exact .inr negative
  · intro zero
    rw [Head.onConnection]
    rcases zero with zero | zero
    · rw [zero]
      rfl
    · rw [zero]
      rfl

theorem wireStream_of_equals {h : Head} {n : Nat} (same : h.streamId.equals (Number.ofNat n) = true)
    (small : n < 2 ^ 31) : wireStream h = n := by
  rw [wireStream, Number.truncate_of_equals same]
  omega

theorem wireStream_of_onConnection {h : Head} (zero : h.onConnection = true) : wireStream h = 0 :=
  wireStream_of_equals zero (by decide)

/-- Of a stream of which the wire holds nothing, the bytes of the header say none. -/
theorem wireBytes_of_wireStream {h : Head} (stream : wireStream h = 0) (n : Nat) :
    { h with streamId := Number.ofNat noStream }.wireBytes n = h.wireBytes n := by
  have word : h.streamId.toWord &&& streamIdMask = 0 := by
    rw [← UInt32.toNat_inj, Head.toNat_streamWord]
    exact stream
  have blank : (Number.ofNat noStream).toWord &&& streamIdMask = 0 := by
    rw [Number.toWord_ofNat]
    rfl
  rw [Head.wireBytes, Head.wireBytes, word, blank]

theorem wireStream_lt (h : Head) : wireStream h < 2 ^ 31 := by
  rw [wireStream]
  omega

/-- The text of a refusal names the number, so that it tells a stream from what the wire holds of
it. -/
theorem message_onStream_eq_iff {x : Number} {n : Nat} (binary64 : x.IsBinary64) (pos : n ≠ 0)
    (small : n < 2 ^ 31) :
    (FrameError.onStream x).message = (FrameError.onStream (Number.ofNat n)).message ↔
      x = Number.ofNat n := by
  constructor
  · intro same
    rw [message_onStream small] at same
    have text : x.text = toString n := String.append_right_inj _ |>.1 same
    exact Number.eq_ofNat_of_text binary64 (Nat.pos_of_ne_zero pos) (by omega) text
  · rintro rfl
    rfl

section Parted

variable {h : Head} {payload frame : View} (kind : h.kind.truncate % 0x100 = 6)
  (small : payload.length ≤ maxPayloadLength)
  (front : frame.toBytes = h.wireBytes payload.length ++ payload.toBytes)

include kind small front

theorem agree_of_onConnection (zero : h.onConnection = true) :
    Agree (load h payload) (ofFrame frame) := by
  rw [ofFrame_eq_load kind small front, if_pos (wireStream_of_onConnection zero),
    load_eq_of_stream, if_pos zero]
  exact agree_load_self _ _

theorem refused_both (nonzero : ¬ h.onConnection = true) (stream : wireStream h ≠ 0) :
    load h payload = .error (.frame (.onStream h.streamId)) ∧
      ofFrame frame = .error (.frame (.onStream (Number.ofNat (wireStream h)))) := by
  rw [ofFrame_eq_load kind small front, if_neg stream, load_eq_of_stream, if_neg nonzero]
  exact ⟨rfl, rfl⟩

theorem refused_load (nonzero : ¬ h.onConnection = true) (stream : wireStream h = 0) :
    load h payload = .error (.frame (.onStream h.streamId)) ∧
      ofFrame frame = load { h with streamId := Number.ofNat noStream } payload := by
  rw [ofFrame_eq_load kind small front, if_pos stream, load_eq_of_stream, if_neg nonzero]
  exact ⟨rfl, rfl⟩

theorem agree_of_equals {n : Nat} (bound : n < 2 ^ 31)
    (same : h.streamId.equals (Number.ofNat n) = true) : Agree (load h payload) (ofFrame frame) := by
  by_cases zero : h.onConnection = true
  · exact agree_of_onConnection kind small front zero
  · have stream : wireStream h = n := wireStream_of_equals same bound
    rcases Number.eq_of_equals_ofNat same with plain | ⟨negative, -⟩
    · have pos : n ≠ 0 := by
        rintro rfl
        exact zero ((onConnection_iff h).2 (.inl plain))
      obtain ⟨loaded, read⟩ := refused_both kind small front zero (stream ▸ pos)
      rw [loaded, read, stream, plain]
      exact .refused rfl rfl
    · exact absurd ((onConnection_iff h).2 (.inr negative)) zero

theorem not_sameOutcome_iff :
    ¬ SameOutcome (load h payload) (ofFrame frame) ↔
      ¬ h.onConnection = true ∧ wireStream h = 0 := by
  constructor
  · intro differ
    constructor
    · intro zero
      exact differ (agree_of_onConnection kind small front zero).sameOutcome
    · by_contra stream
      by_cases zero : h.onConnection = true
      · exact stream (wireStream_of_onConnection zero)
      · obtain ⟨loaded, read⟩ := refused_both kind small front zero stream
        rw [loaded, read] at differ
        exact differ (.refused rfl)
  · rintro ⟨nonzero, stream⟩ same
    obtain ⟨loaded, read⟩ := refused_load kind small front nonzero stream
    have connection : { h with streamId := Number.ofNat noStream }.onConnection = true := rfl
    rw [loaded, read, load_eq, if_pos connection] at same
    split_ifs at same with size
    · cases same
    · cases same with
      | refused code => cases code

end Parted

/-- Loading a payload with a header and reading the bytes of the two agree, but for the streams that
are not none and of which the wire holds nothing: there loading refuses what reading takes for a frame
on no stream.  Where both refuse the stream, each names it as it sees it. -/
theorem load_agree_ofFrame {h : Head} {payload : View} (kind : h.kind.truncate % 0x100 = 6)
    (small : payload.length ≤ 0xffffff) :
    ∃ header, h.encode (Number.ofNat payload.length) = .ok header ∧
      ∀ frame : View, frame.toBytes = header ++ payload.toBytes →
        let stream := (h.streamId.truncate % 0x80000000).toNat
        let zero := h.streamId = Number.ofNat 0 ∨ h.streamId = Number.negativeZero
        (zero → Agree (load h payload) (ofFrame frame)) ∧
        (¬ zero → stream ≠ 0 →
          ∃ e f, load h payload = .error (.frame e) ∧ ofFrame frame = .error (.frame f) ∧
            e.code = .invalidStreamId ∧ f.code = .invalidStreamId ∧
            (h.streamId.IsBinary64 →
              (e.message = f.message ↔ h.streamId = Number.ofNat stream))) ∧
        (¬ SameOutcome (load h payload) (ofFrame frame) ↔ ¬ zero ∧ stream = 0) ∧
        (¬ zero → stream = 0 →
          (∃ e, load h payload = .error (.frame e) ∧ e.code = .invalidStreamId) ∧
          { h with streamId := Number.ofNat 0 }.encode (Number.ofNat payload.length) = .ok header ∧
          Agree (load { h with streamId := Number.ofNat 0 } payload) (ofFrame frame)) ∧
        ∀ n : Nat, n ≤ 0x7fffffff → h.streamId.equals (Number.ofNat n) = true →
          Agree (load h payload) (ofFrame frame) := by
  have fits : payloadLength? (Number.ofNat payload.length) = some payload.length :=
    Head.payloadLength?_of_equals (by rw [Number.equals_ofNat, beq_self_eq_true]) small
  refine ⟨_, Head.encode_eq fits, fun frame front => ?_⟩
  dsimp only
  rw [← onConnection_iff]
  refine ⟨agree_of_onConnection kind small front, fun nonzero stream => ?_,
    not_sameOutcome_iff kind small front, fun nonzero stream => ?_, fun n bound same => ?_⟩
  · obtain ⟨loaded, read⟩ := refused_both kind small front nonzero stream
    exact ⟨_, _, loaded, read, rfl, rfl,
      fun binary64 => message_onStream_eq_iff binary64 stream (wireStream_lt h)⟩
  · obtain ⟨loaded, read⟩ := refused_load kind small front nonzero stream
    refine ⟨⟨_, loaded, rfl⟩, ?_, by rw [read]; exact agree_load_self _ _⟩
    rw [Head.encode_eq fits]
    exact congrArg Except.ok (wireBytes_of_wireStream stream _)
  · exact agree_of_equals kind small front (by omega) same

/-- Two headers of a response whose types and flags do not fit a byte: the stream `2 ^ 31 + 5` is
refused as another one by each way, and of the stream `2 ^ 31` the wire holds nothing. -/
theorem load_agree_ofFrame_beyond_mask :
    let payload := View.whole [1, 2, 3, 4, 5, 6, 7, 8]
    let h : Nat → Head := fun stream => ⟨Number.ofNat 262, Number.ofNat 259, Number.ofNat stream⟩
    (∃ header, (h 0x80000005).encode (Number.ofNat 8) = .ok header ∧
      ∀ frame : View, frame.toBytes = header ++ payload.toBytes →
        ∃ e f, load (h 0x80000005) payload = .error (.frame e) ∧ ofFrame frame = .error (.frame f) ∧
          e.message ≠ f.message) ∧
    ∃ header, (h 0x80000000).encode (Number.ofNat 8) = .ok header ∧
      ∀ frame : View, frame.toBytes = header ++ payload.toBytes →
        ¬ SameOutcome (load (h 0x80000000) payload) (ofFrame frame) := by
  intro payload h
  have kind (stream : Nat) : (h stream).kind.truncate % 0x100 = 6 := by
    rw [Number.truncate_ofNat]
    rfl
  have nonzero {stream : Nat} (pos : stream ≠ 0) :
      ¬ ((h stream).streamId = Number.ofNat 0 ∨ (h stream).streamId = Number.negativeZero) := by
    simp [h, Number.ofNat, pos]
  have value (stream : Nat) : (h stream).streamId.truncate = stream := Number.truncate_ofNat stream
  constructor
  · obtain ⟨header, encoded, both⟩ :=
      @load_agree_ofFrame (h 0x80000005) payload (kind 0x80000005) (by decide)
    refine ⟨header, encoded, fun frame front => ?_⟩
    obtain ⟨-, refused, -⟩ := both frame front
    obtain ⟨e, f, loaded, read, -, -, text⟩ := refused (nonzero (by decide)) (by rw [value]; decide)
    have binary64 : (h 0x80000005).streamId.IsBinary64 :=
      ⟨0x80000005, 0, by decide, by decide, by decide, by simp⟩
    refine ⟨e, f, loaded, read, fun same => ?_⟩
    have low := congrArg Number.truncate ((text binary64).1 same)
    rw [value, Number.truncate_ofNat] at low
    exact absurd low (by decide)
  · obtain ⟨header, encoded, both⟩ :=
      @load_agree_ofFrame (h 0x80000000) payload (kind 0x80000000) (by decide)
    refine ⟨header, encoded, fun frame front => ?_⟩
    exact (both frame front).2.2.1.2 ⟨nonzero (by decide), by rw [value]; decide⟩

end PingCodec.Ping
