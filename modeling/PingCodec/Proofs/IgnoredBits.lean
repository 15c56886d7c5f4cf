import PingCodec.Proofs.HeadRoundTrip
import PingCodec.Proofs.Stream

/-!
# The bits of a frame that are not read

Of the flags only the lowest bit is read, and of the four bytes of the stream all but the reserved
bit.  Frames that agree in the other bits are read alike (`ofFrame_congr`), accepted or not, and a PING
that was read is written as its frame with the ignored bits cleared (`frame_of_ofFrame`), so that no
other bit is forgotten.
-/

namespace PingCodec

namespace Bytes

theorem mod_two_pow_eq_iff {m n j : Nat} :
    m % 2 ^ j = n % 2 ^ j ↔ ∀ k < j, m.testBit k = n.testBit k := by
  constructor
  · intro same k inside
    have bit := congrArg (·.testBit k) same
    simpa only [Nat.testBit_mod_two_pow, inside, decide_true, Bool.true_and] using bit
  · intro same
    apply Nat.eq_of_testBit_eq
    intro k
    rw [Nat.testBit_mod_two_pow, Nat.testBit_mod_two_pow]
    by_cases inside : k < j
    · rw [same k inside]
    · rw [decide_eq_false inside, Bool.false_and, Bool.false_and]

end Bytes

namespace Ping

/-- How many bits of the byte at a position of a frame are read, counted from the low end. -/
def readBits (i : Nat) : Nat := if i = 4 then 1 else if i = 5 then 7 else 8

/-- That two byte strings of one length differ in bits that are not read at most. -/
structure ReadAlike (bs cs : Bytes) : Prop where
  length : bs.length = cs.length
  bits (i k : Nat) : k < readBits i → (bs.byteAt i).toNat.testBit k = (cs.byteAt i).toNat.testBit k

/-- A frame with all bits cleared that are not read. -/
def clearIgnored (bs : Bytes) : Bytes := (Head.clearReserved bs).setByte 4 (bs.byteAt 4 &&& 1)

namespace ReadAlike

variable {bs cs ds : Bytes}

theorem symm (alike : ReadAlike bs cs) : ReadAlike cs bs :=
  ⟨alike.length.symm, fun i k inside => (alike.bits i k inside).symm⟩

theorem trans (alike : ReadAlike bs cs) (alike' : ReadAlike cs ds) : ReadAlike bs ds :=
  ⟨alike.length.trans alike'.length,
    fun i k inside => (alike.bits i k inside).trans (alike'.bits i k inside)⟩

theorem mod_eq (alike : ReadAlike bs cs) (i : Nat) :
    (bs.byteAt i).toNat % 2 ^ readBits i = (cs.byteAt i).toNat % 2 ^ readBits i :=
  Bytes.mod_two_pow_eq_iff.2 (alike.bits i)

theorem byteAt_eq (alike : ReadAlike bs cs) {i : Nat} (whole : readBits i = 8) :
    bs.byteAt i = cs.byteAt i := by
  have same := alike.mod_eq i
  have bound := (bs.byteAt i).toNat_lt
  have bound' := (cs.byteAt i).toNat_lt
  rw [whole] at same
  apply UInt8.toNat_inj.1
  omega

end ReadAlike

/-! ## Reading ignores them -/

theorem streamNumber_congr {bs cs : Bytes} (alike : ReadAlike bs cs)
    (long : headerSize ≤ bs.length) : streamNumber bs = streamNumber cs := by
  have first : (bs.byteAt 5).toNat % 2 ^ 7 = (cs.byteAt 5).toNat % 2 ^ 7 := alike.mod_eq 5
  have field : (bs.drop 5).take 4 = [bs.byteAt 5, bs.byteAt 6, bs.byteAt 7, bs.byteAt 8] :=
    ParsedHead.take_drop_header long (by decide)
  have field' : (cs.drop 5).take 4 = [cs.byteAt 5, bs.byteAt 6, bs.byteAt 7, bs.byteAt 8] := by
    rw [alike.byteAt_eq (i := 6) rfl, alike.byteAt_eq (i := 7) rfl, alike.byteAt_eq (i := 8) rfl]
    exact ParsedHead.take_drop_header (alike.length ▸ long) (by decide)
  rw [streamNumber, streamNumber, field, field']
  simp only [Bytes.value, List.foldl_cons, List.foldl_nil]
  omega

theorem declaredLength_congr {bs cs : Bytes} (alike : ReadAlike bs cs)
    (long : headerSize ≤ bs.length) : declaredLength bs = declaredLength cs := by
  have field : bs.take 3 = [bs.byteAt 0, bs.byteAt 1, bs.byteAt 2] :=
    ParsedHead.take_drop_header long (show 0 + 3 ≤ headerSize by decide)
  have field' : cs.take 3 = [bs.byteAt 0, bs.byteAt 1, bs.byteAt 2] := by
    rw [alike.byteAt_eq (i := 0) rfl, alike.byteAt_eq (i := 1) rfl, alike.byteAt_eq (i := 2) rfl]
    exact ParsedHead.take_drop_header (alike.length ▸ long) (show 0 + 3 ≤ headerSize by decide)
  rw [declaredLength, declaredLength, field, field']

theorem atPosition_congr {bs cs : Bytes} (alike : ReadAlike bs cs) :
    Payload.atPosition bs headerSize = Payload.atPosition cs headerSize := by
  simp only [Payload.atPosition]
  congr 1
  funext k
  have behind : readBits (headerSize + k) = 8 := by
    have far : 9 ≤ headerSize + k.val := Nat.le_add_right 9 k.val
    rw [readBits, if_neg (by omega), if_neg (by omega)]
  exact alike.byteAt_eq behind

/-- Frames that agree in the bits that are read end alike, in one PING or in one error. -/
theorem ofFrame_congr {v w : View} (alike : ReadAlike v.toBytes w.toBytes) :
    ofFrame v = ofFrame w := by
  rw [ofFrame_eq, ofFrame_eq w, ← alike.length]
  by_cases short : v.toBytes.length < headerSize
  · rw [if_pos short, if_pos short]
  · have long := Nat.not_lt.1 short
    have kind : v.toBytes.byteAt 3 = w.toBytes.byteAt 3 := alike.byteAt_eq rfl
    have ack : (v.toBytes.byteAt 4).toNat.testBit 0 = (w.toBytes.byteAt 4).toNat.testBit 0 :=
      alike.bits 4 0 (by decide)
    rw [if_neg short, if_neg short, kind, ack, streamNumber_congr alike long,
      declaredLength_congr alike long, atPosition_congr alike]

/-! ## Writing clears them -/

theorem toNat_and_one (b : UInt8) : (b &&& 1).toNat = b.toNat % 2 ^ 1 :=
  Bytes.toNat_and_lowBits rfl b

section Cleared

variable {bs : Bytes} (long : headerSize ≤ bs.length)

include long

theorem byteAt_clearIgnored (i : Nat) :
    (clearIgnored bs).byteAt i =
      if i = 4 then bs.byteAt 4 &&& 1 else if i = 5 then bs.byteAt 5 &&& 0x7f else bs.byteAt i := by
  replace long : 9 ≤ bs.length := long
  rw [clearIgnored, Head.clearReserved, Bytes.byteAt_setByte (by rw [Bytes.length_setByte]; omega),
    Bytes.byteAt_setByte (by omega)]

theorem readAlike_clearIgnored : ReadAlike (clearIgnored bs) bs where
  length := by rw [clearIgnored, Bytes.length_setByte, Head.clearReserved, Bytes.length_setByte]
  bits i := by
    rw [← Bytes.mod_two_pow_eq_iff, byteAt_clearIgnored long]
    split_ifs with flags stream
    · rw [flags, toNat_and_one]
      exact Nat.mod_mod _ _
    · rw [stream, Head.toNat_and_sevenBits]
      exact Nat.mod_mod _ _
    · rfl

/-- A frame is in the cleared form if the flags are at most the one that is read and the reserved bit
is not set. -/
theorem clearIgnored_eq_self_iff :
    clearIgnored bs = bs ↔
      (bs.byteAt 4 = 0 ∨ bs.byteAt 4 = 1) ∧ (bs.byteAt 5).toNat.testBit 7 = false := by
  have flags : (bs.byteAt 4 = 0 ∨ bs.byteAt 4 = 1) ↔ bs.byteAt 4 &&& 1 = bs.byteAt 4 := by
    rw [← UInt8.toNat_inj, ← UInt8.toNat_inj, ← UInt8.toNat_inj, toNat_and_one]
    show (bs.byteAt 4).toNat = 0 ∨ (bs.byteAt 4).toNat = 1 ↔ _
    omega
  have reserved : (bs.byteAt 5).toNat.testBit 7 = false ↔ bs.byteAt 5 &&& 0x7f = bs.byteAt 5 := by
    have bound := (bs.byteAt 5).toNat_lt
    rw [← UInt8.toNat_inj, Head.toNat_and_sevenBits, Nat.testBit_eq_decide_div_mod_eq,
      decide_eq_false_iff_not]
    omega
  rw [flags, reserved]
  constructor
  · intro same
    have at4 := byteAt_clearIgnored long 4
    have at5 := byteAt_clearIgnored long 5
    rw [same] at at4 at5
    exact ⟨at4.symm, at5.symm⟩
  · rintro ⟨at4, at5⟩
    rw [clearIgnored, Head.clearReserved, at4, at5, Bytes.setByte_byteAt, Bytes.setByte_byteAt]

theorem clearIgnored_eq :
    clearIgnored bs =
      bs.take 4 ++ [bs.byteAt 4 &&& 1] ++
        [bs.byteAt 5 &&& 0x7f, bs.byteAt 6, bs.byteAt 7, bs.byteAt 8] ++ bs.drop headerSize := by
  have front : bs.take 4 = [bs.byteAt 0, bs.byteAt 1, bs.byteAt 2, bs.byteAt 3] :=
    ParsedHead.take_drop_header long (show 0 + 4 ≤ headerSize by decide)
  have head : bs.take headerSize = bs.take 4 ++ [bs.byteAt 4] ++
      [bs.byteAt 5, bs.byteAt 6, bs.byteAt 7, bs.byteAt 8] := by
    rw [front]
    exact ParsedHead.take_drop_header long (show 0 + headerSize ≤ headerSize by decide)
  calc clearIgnored bs
      = Bytes.setByte (Bytes.setByte (bs.take headerSize ++ bs.drop headerSize) 5
          (bs.byteAt 5 &&& 0x7f)) 4 (bs.byteAt 4 &&& 1) := by rw [List.take_append_drop]; rfl
    _ = _ := by rw [head, front]; rfl

end Cleared

theorem payloadBytes_entries (ack : Bool) (q : Payload) :
    payloadBytes ⟨ack, q.entries⟩ = q.toBytes := by
  have digits : Number.toByte ∘ Number.ofByte = id := funext Number.toByte_ofByte
  rw [payloadBytes, Payload.entries, Vector.toList_map, List.map_map, digits, List.map_id]
  rfl

/-- A PING that was read is written as its frame with the ignored bits cleared. -/
theorem frame_of_ofFrame {v : View} {p : Ping} (read : ofFrame v = .ok p) :
    p.frame = clearIgnored v.toBytes := by
  obtain ⟨⟨length, front, stream⟩, rfl⟩ := ofFrame_eq_ok_iff.1 read
  have long : headerSize ≤ v.toBytes.length := by rw [length]; decide
  have streamId : (ParsedHead.ofBytes v.toBytes).head.streamId = Number.ofNat 0 :=
    congrArg Number.ofNat stream
  have streamBytes := ParsedHead.streamBytes_ofBytes long
  rw [streamId, Number.toWord_ofNat] at streamBytes
  have flags (b : UInt8) : (if b.toNat.testBit 0 then 1 else 0) = b &&& 1 := by
    rw [← UInt8.toNat_inj, toNat_and_one, Nat.testBit_zero]
    rcases Nat.mod_two_eq_zero_or_one b.toNat with even | odd
    · simp [even]
    · simp [odd]
  have payload : (Payload.atPosition v.toBytes headerSize).toBytes = v.toBytes.drop headerSize := by
    rw [Payload.toBytes_atPosition (by rw [length]; decide), List.take_of_length_le]
    rw [List.length_drop, length]
    decide
  rw [frame_eq, flagByte, payloadBytes_entries, payload, flags, clearIgnored_eq long, front,
    ← streamBytes]
  rfl

/-! ## Equal PINGs -/

theorem equals_entries_iff {ack ack' : Bool} {a b : Payload} :
    equals ⟨ack, a.entries⟩ ⟨ack', b.entries⟩ = true ↔ ack = ack' ∧ a = b := by
  have entry (i : Fin payloadSize) : a.entries[i].equals b.entries[i] = true ↔ a[i] = b[i] := by
    rw [Payload.getElem_entries, Payload.getElem_entries, Number.equals_ofByte_iff]
  rw [equals, Bool.and_eq_true, beq_iff_eq, Entries.equals_iff]
  simp only [entry]
  constructor
  · rintro ⟨sort, same⟩
    exact ⟨sort, Vector.ext fun i hi => same ⟨i, hi⟩⟩
  · rintro ⟨rfl, rfl⟩
    exact ⟨rfl, fun _ => rfl⟩

/-- PINGs that were read are equal only if they are the same. -/
theorem equals_of_ofFrame {v w : View} {p q : Ping} (read : ofFrame v = .ok p)
    (read' : ofFrame w = .ok q) : p.equals q = true ↔ p = q := by
  obtain ⟨-, rfl⟩ := ofFrame_eq_ok_iff.1 read
  obtain ⟨-, rfl⟩ := ofFrame_eq_ok_iff.1 read'
  constructor
  · intro same
    obtain ⟨ack, payload⟩ := equals_entries_iff.1 same
    rw [ack, payload]
  · intro same
    rw [← same]
    exact equals_entries_iff.2 ⟨rfl, rfl⟩

theorem long_of_ofFrame {v : View} {p : Ping} (read : ofFrame v = .ok p) :
    headerSize ≤ v.toBytes.length := by
  rw [(ofFrame_eq_ok_iff.1 read).1.1]
  decide

/-- Of a frame that is accepted, reading forgets the ignored bits and nothing else: the PING is
written as the frame with these bits cleared, PINGs are equal if and only if their frames differ in
them at most, and no outcome of reading depends on them. -/
theorem toFrame_ofFrame (log : Logger) :
    (∀ (v : View) (p : Ping), ofFrame v = .ok p →
      (p.toFrame log).1 = clearIgnored v.toBytes ∧
      ((p.toFrame log).1 = v.toBytes ↔
        (v.toBytes.byteAt 4 = 0 ∨ v.toBytes.byteAt 4 = 1) ∧
          (v.toBytes.byteAt 5).toNat.testBit 7 = false) ∧
      ∀ w : View, w.toBytes = (p.toFrame log).1 →
        ∃ q, ofFrame w = .ok q ∧ (q.toFrame log).1 = (p.toFrame log).1) ∧
    (∀ (v w : View) (p q : Ping), ofFrame v = .ok p → ofFrame w = .ok q →
      (p.equals q = true ↔ ReadAlike v.toBytes w.toBytes)) ∧
    ∀ v w : View, 9 ≤ v.length → ReadAlike v.toBytes w.toBytes → ofFrame v = ofFrame w := by
  refine ⟨fun v p read => ?_, fun v w p q read read' => ?_, fun v w _ => ofFrame_congr⟩
  · have long := long_of_ofFrame read
    have written : (p.toFrame log).1 = clearIgnored v.toBytes := frame_of_ofFrame read
    refine ⟨written, by rw [written, clearIgnored_eq_self_iff long], fun w again => ?_⟩
    have alike : ReadAlike w.toBytes v.toBytes := by
      rw [again, written]
      exact readAlike_clearIgnored long
    exact ⟨p, (ofFrame_congr alike).trans read, rfl⟩
  · rw [equals_of_ofFrame read read']
    constructor
    · rintro rfl
      have cleared := readAlike_clearIgnored (long_of_ofFrame read)
      rw [← frame_of_ofFrame read, frame_of_ofFrame read'] at cleared
      exact cleared.symm.trans (readAlike_clearIgnored (long_of_ofFrame read'))
    · intro alike
      exact Except.ok.inj (read.symm.trans ((ofFrame_congr alike).trans read'))

/-- A response with all flags and the reserved bit set. -/
theorem toFrame_ofFrame_flags :
    let frame : Bytes := [0, 0, 8, 6, 0xff, 0x80, 0, 0, 0, 1, 2, 3, 4, 5, 6, 7, 8]
    let cleared : Bytes := [0, 0, 8, 6, 1, 0, 0, 0, 0, 1, 2, 3, 4, 5, 6, 7, 8]
    ∃ p, ofFrame (View.whole frame) = .ok p ∧ (p.toFrame {}).1 = cleared ∧
      ofFrame (View.whole cleared) = .ok p ∧ p.equals p = true := by
  intro frame cleared
  obtain ⟨written, equal, ignored⟩ := toFrame_ofFrame {}
  have read : ofFrame (View.whole frame) = .ok ⟨true, Payload.entries #v[1, 2, 3, 4, 5, 6, 7, 8]⟩ := by
    decide +kernel
  have long : headerSize ≤ frame.length := by decide
  have same : clearIgnored frame = cleared := by decide
  have alike : ReadAlike (View.whole frame).toBytes (View.whole cleared).toBytes := by
    rw [View.toBytes_whole, View.toBytes_whole, ← same]
    exact (readAlike_clearIgnored long).symm
  refine ⟨_, read, (written _ _ read).1.trans (by decide +kernel), ?_, ?_⟩
  · exact (ignored _ _ (by decide) alike).symm.trans read
  · exact (equal _ _ _ _ read read).2 (alike.trans alike.symm)

end Ping

end PingCodec
