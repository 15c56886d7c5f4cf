import Mathlib.Data.List.Forall2
import PingCodec.Proofs.Decoding

/-!
# Streams of PING frames

The frame of a PING is its header and its payload, seventeen bytes that depend on nothing else
(`frame_eq`), and it is read back as the PING with its entries as bytes (`ofFrame_frame`).  Frames
that follow each other in one byte string are told apart by the lengths that their headers declare
(`readFrames_flatMap`).
-/

namespace PingCodec.Ping

/-! ## One frame -/

/-- The flags in the frame of a PING. -/
def flagByte (p : Ping) : UInt8 := if p.ack then 1 else 0

/-- A PING as it is once it went over the wire: its entries are bytes. -/
def onWire (p : Ping) : Ping := ⟨p.ack, p.entries.map fun x => Number.ofByte x.toByte⟩

theorem length_payloadBytes (p : Ping) : p.payloadBytes.length = payloadSize := by
  rw [payloadBytes, List.length_map, Vector.length_toList]

theorem wireBytes_head (p : Ping) :
    p.head.wireBytes payloadSize = [0, 0, 8, 6, p.flagByte, 0, 0, 0, 0] := by
  simp only [Head.wireBytes, head, Number.toByte_ofNat, Number.toWord_ofNat, flagByte]
  cases p.ack <;> rfl

/-- The header of a PING is written over the front of its frame. -/
theorem write_head (p : Ping) :
    p.head.write (Number.ofNat payloadSize) blankFrame (Number.ofNat 0) =
      .ok (blankFrame.buffer.overwrite 0 (p.head.wireBytes payloadSize)) := by
  rw [Head.write_eq_ok_iff]
  exact ⟨payloadSize, 0, by decide +kernel, Head.place_whole_zero _, by decide, rfl⟩

/-- The frame of a PING, byte by byte. -/
theorem frame_eq (p : Ping) :
    p.frame = [0, 0, 8, 6, p.flagByte, 0, 0, 0, 0] ++ p.payloadBytes := by
  have blank : blankFrame.buffer.length = 17 := List.length_replicate ..
  have size := p.length_payloadBytes
  have all : (p.head.wireBytes payloadSize ++ p.payloadBytes).length = blankFrame.buffer.length := by
    rw [blank, List.length_append, size]
    rfl
  simp only [frame, write_head, Except.toOption, Option.get_some]
  rw [Bytes.overwrite_overwrite _ _ (by rfl) (by rw [size, blank]; decide), Bytes.overwrite_zero all,
    wireBytes_head]

theorem length_frame (p : Ping) : p.frame.length = 17 := by
  rw [frame_eq, List.length_append, length_payloadBytes]
  rfl

/-! ## Reading a frame back -/

theorem streamNumber_frame (p : Ping) (rest : Bytes) : streamNumber (p.frame ++ rest) = 0 := by
  have field : ((p.frame ++ rest).drop 5).take 4 = [0, 0, 0, 0] := by
    rw [frame_eq]
    rfl
  rw [streamNumber, field]
  rfl

theorem ofBytes_frame (p : Ping) (rest : Bytes) :
    ParsedHead.ofBytes (p.frame ++ rest) =
      ⟨⟨Number.ofNat 6, Number.ofNat (if p.ack then 1 else 0), Number.ofNat 0⟩, 8⟩ := by
  have length : (p.frame ++ rest).take 3 = [0, 0, 8] := by
    rw [frame_eq]
    rfl
  have kind : (p.frame ++ rest).byteAt 3 = 6 := by
    rw [frame_eq]
    rfl
  have flags : (p.frame ++ rest).byteAt 4 = p.flagByte := by
    rw [frame_eq]
    rfl
  have stream := streamNumber_frame p rest
  rw [streamNumber] at stream
  rw [ParsedHead.ofBytes, length, kind, flags, stream, flagByte]
  cases p.ack <;> rfl

section Front

variable {p : Ping} {v : View} {rest : Bytes} (front : v.toBytes = p.frame ++ rest)

include front

/-- At the start of a frame stands its header, whatever comes behind. -/
theorem ofView_of_front :
    ParsedHead.ofView v =
      .ok ⟨⟨Number.ofNat 6, Number.ofNat (if p.ack then 1 else 0), Number.ofNat 0⟩, 8⟩ := by
  have long : ¬ v.toBytes.length < headerSize := by
    rw [front, List.length_append, length_frame]
    show ¬ 17 + rest.length < 9
    omega
  rw [ParsedHead.ofView_eq, if_neg long, front, ofBytes_frame]

theorem toBytes_slice_of_front : (v.slice 0 (some 17)).toBytes = p.frame := by
  have cut := View.toBytes_slice_zero v 17
  rw [front, List.take_left' p.length_frame] at cut
  exact cut

theorem toBytes_drop_of_front : (v.drop 17).toBytes = rest := by
  rw [View.toBytes_drop, front, List.drop_left' p.length_frame]

end Front

/-- A frame is read back as the PING that it was written from, with its entries as bytes. -/
theorem ofFrame_frame {p : Ping} {v : View} (whole : v.toBytes = p.frame) :
    ofFrame v = .ok p.onWire := by
  have ack : (p.flagByte).toNat.testBit 0 = p.ack := by
    rw [flagByte]
    cases p.ack <;> rfl
  have entries : (Payload.atPosition p.frame headerSize).entries = p.onWire.entries := by
    have payload : (p.frame.drop headerSize).take payloadSize = p.payloadBytes := by
      rw [frame_eq]
      exact List.take_of_length_le (Nat.le_of_eq p.length_payloadBytes)
    apply Vector.toList_inj.1
    rw [toList_entries_atPosition (by rw [length_frame]; decide), payload, payloadBytes,
      List.map_map, onWire, Vector.toList_map]
    rfl
  rw [ofFrame_eq_ok_iff, whole]
  refine ⟨⟨p.length_frame, ?_, ?_⟩, ?_⟩
  · rw [frame_eq]
    rfl
  · rw [← List.append_nil p.frame, streamNumber_frame]
  · rw [entries, frame_eq]
    show p.onWire = ⟨p.flagByte.toNat.testBit 0, p.onWire.entries⟩
    rw [ack]
    rfl

/-- A PING that was made loses nothing on the wire that equality sees. -/
theorem Made.equals_onWire {p : Ping} (made : p.Made) : p.onWire.equals p = true := by
  rw [equals, Bool.and_eq_true, Entries.equals_iff]
  refine ⟨beq_self_eq_true _, fun i => ?_⟩
  have bytes := Number.equals_toByte (made.isByte i)
  simpa [onWire] using bytes

/-! ## Streams -/

/-- Encode PINGs one after the other to one fresh byte buffer. -/
def encodeAll (log : Logger) (ps : List Ping) : ByteBuffer :=
  ps.foldl (fun buffer p => (p.encode log buffer).1) {}

/-- Read frames off the front of a view until nothing is left; how far a frame goes is what its
header says. -/
def readFrames (v : View) : Except PingError (List Ping) :=
  if v.length = 0 then .ok []
  else
    match ParsedHead.ofView v with
    | .error e => .error (.frame e)
    | .ok parsed => do
      let p ← ofFrame (v.slice 0 (some ↑(headerSize + parsed.length)))
      let rest ← readFrames (v.drop (headerSize + parsed.length))
      return p :: rest
termination_by v.length
decreasing_by
  rw [← View.length_toBytes, ← View.length_toBytes, View.toBytes_drop, List.length_drop,
    View.length_toBytes]
  show v.length - (9 + parsed.length) < v.length
  omega

theorem toBytes_encodeAll (log : Logger) (ps : List Ping) :
    (encodeAll log ps).toBytes = ps.flatMap frame := by
  have step (buffer : ByteBuffer) :
      (ps.foldl (fun buffer p => (p.encode log buffer).1) buffer).toBytes =
        buffer.toBytes ++ ps.flatMap frame := by
    induction ps generalizing buffer with
    | nil => exact (List.append_nil _).symm
    | cons p ps ih =>
      rw [List.foldl_cons, ih, List.flatMap_cons, ← List.append_assoc]
      rfl
  exact step {}

theorem length_flatMap_frame (ps : List Ping) : (ps.flatMap frame).length = 17 * ps.length := by
  induction ps with
  | nil => rfl
  | cons p ps ih =>
    rw [List.flatMap_cons, List.length_append, ih, length_frame, List.length_cons]
    omega

/-- Behind `i` frames the stream goes on with the frames of the other PINGs. -/
theorem drop_flatMap_frame (ps : List Ping) (i : Nat) :
    (ps.flatMap frame).drop (17 * i) = (ps.drop i).flatMap frame := by
  induction ps generalizing i with
  | nil => simp
  | cons p ps ih =>
    cases i with
    | zero => rfl
    | succ i =>
      rw [List.flatMap_cons, List.drop_succ_cons, ← ih, Nat.mul_succ, Nat.add_comm,
        ← List.drop_drop, List.drop_left' p.length_frame]

/-- Reading the frames of a stream gives back the PINGs, and nothing of it is left. -/
theorem readFrames_flatMap {v : View} {ps : List Ping} (stream : v.toBytes = ps.flatMap frame) :
    readFrames v = .ok (ps.map onWire) := by
  have length := congrArg List.length stream
  rw [View.length_toBytes, length_flatMap_frame] at length
  induction ps generalizing v with
  | nil =>
    rw [readFrames, if_pos (show v.length = 0 from length)]
    rfl
  | cons p ps ih =>
    rw [List.flatMap_cons] at stream
    have rest : readFrames (v.drop 17) = .ok (ps.map onWire) := by
      have behind := toBytes_drop_of_front stream
      refine ih behind ?_
      rw [← View.length_toBytes, behind, length_flatMap_frame]
    have first := ofFrame_frame (toBytes_slice_of_front stream)
    rw [readFrames, if_neg (by rw [length, List.length_cons]; omega), ofView_of_front stream]
    show (do
      let p ← ofFrame (v.slice 0 (some 17))
      let rest ← readFrames (v.drop 17)
      return p :: rest) = _
    rw [first, rest]
    rfl

/-- PINGs that are encoded one after the other make a stream of frames that each tell their own
length, and reading it gives back equal PINGs. -/
theorem readFrames_encodeAll (log : Logger) {ps : List Ping} (made : ∀ p ∈ ps, p.Made) :
    (encodeAll log ps).size = 17 * ps.length ∧
    (∀ (i : Nat) (h : i < ps.length),
      ParsedHead.ofView ((View.whole (encodeAll log ps).toBytes).drop (17 * i)) =
        .ok ⟨⟨Number.ofNat 6, Number.ofNat (if ps[i].ack then 1 else 0), Number.ofNat 0⟩, 8⟩ ∧
      (((View.whole (encodeAll log ps).toBytes).drop (17 * i)).slice 0 (some (9 + 8))).toBytes =
        (ps[i].toFrame log).1 ∧
      (ps[i].toFrame log).1 =
        [0, 0, 8, 6, if ps[i].ack then 1 else 0, 0, 0, 0, 0] ++ ps[i].payloadBytes) ∧
    ∃ qs, readFrames (View.whole (encodeAll log ps).toBytes) = .ok qs ∧
      List.Forall₂ (fun q p => q.equals p = true ∧ p.equals q = true) qs ps := by
  have stream : (View.whole (encodeAll log ps).toBytes).toBytes = ps.flatMap frame := by
    rw [View.toBytes_whole, toBytes_encodeAll]
  refine ⟨?_, fun i h => ?_, _, readFrames_flatMap stream, ?_⟩
  · rw [ByteBuffer.size, toBytes_encodeAll, length_flatMap_frame]
  · have front : ((View.whole (encodeAll log ps).toBytes).drop (17 * i)).toBytes =
        ps[i].frame ++ (ps.drop (i + 1)).flatMap frame := by
      rw [View.toBytes_drop, stream, drop_flatMap_frame, List.drop_eq_getElem_cons h,
        List.flatMap_cons]
    exact ⟨ofView_of_front front, toBytes_slice_of_front front, frame_eq _⟩
  · rw [List.forall₂_map_left_iff, List.forall₂_same]
    intro p hp
    have back := (made p hp).equals_onWire
    exact ⟨back, by rw [equals_comm, back]⟩

/-- A probe of negative zeros, which are read back as zeros, and a response behind it. -/
theorem readFrames_encodeAll_negativeZero :
    ∃ p q : Ping, probe (Vector.replicate payloadSize Number.negativeZero) = .ok p ∧
      pong (Vector.replicate payloadSize (Number.ofNat 255)) = .ok q ∧
      (encodeAll {} [p, q]).size = 34 ∧
      ∃ qs, readFrames (View.whole (encodeAll {} [p, q]).toBytes) = .ok qs ∧
        List.Forall₂ (fun q p => q.equals p = true ∧ p.equals q = true) qs [p, q] := by
  have first := ofEntries_eq_ok_iff.2 (⟨by decide, rfl⟩ : (∀ i : Fin payloadSize,
    (Vector.replicate payloadSize Number.negativeZero)[i].isByte) ∧ Ping.mk false _ = _)
  have second := ofEntries_eq_ok_iff.2 (⟨by decide, rfl⟩ : (∀ i : Fin payloadSize,
    (Vector.replicate payloadSize (Number.ofNat 255))[i].isByte) ∧ Ping.mk true _ = _)
  obtain ⟨size, -, back⟩ := readFrames_encodeAll {}
    (List.forall_mem_cons.2 ⟨.probe first, List.forall_mem_singleton.2 (.pong second)⟩)
  exact ⟨_, _, first, second, size, back⟩

end PingCodec.Ping
