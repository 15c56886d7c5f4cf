import PingCodec.Ping.Frame
import PingCodec.Proofs.Bytes
import PingCodec.Proofs.Number

/-!
# Making PINGs

Every way to make a PING goes through one check of its entries, and the entries that come from bytes
pass it (`ofEntries_entries`).  A PING that was made, by whatever way, holds bytes only
(`Made.isByte`).
-/

namespace PingCodec

/-! ## Payloads -/

namespace Entries

/-- Entries pass the check if and only if all of them are bytes. -/
theorem check_eq_ok_iff (a : Entries) :
    a.check = .ok () ↔ ∀ i : Fin payloadSize, (getElem a i i.isLt).isByte := by
  unfold check
  split
  · rename_i i found
    have fails := List.find?_some found
    simp only [Bool.not_eq_true'] at fails
    simp only [reduceCtorEq, false_iff]
    intro all
    cases fails.symm.trans (all i)
  · rename_i none
    rw [List.find?_eq_none] at none
    simp only [true_iff]
    intro i
    simpa using none i (List.mem_finRange i)

theorem equals_iff (a b : Entries) :
    a.equals b = true ↔
      ∀ i : Fin payloadSize, (getElem a i i.isLt).equals (getElem b i i.isLt) = true := by
  simp [equals]

theorem equals_comm (a b : Entries) : a.equals b = b.equals a := by
  simp only [equals, Number.equals_comm]

end Entries

namespace Payload

theorem getElem_entries (p : Payload) (i : Fin payloadSize) :
    getElem p.entries i i.isLt = Number.ofByte (getElem p i i.isLt) := by
  simp [entries]

/-- The payload that stands at a position of a byte string. -/
def atPosition (bs : Bytes) (i : Nat) : Payload := Vector.ofFn fun k => bs.byteAt (i + k)

theorem toBytes_atPosition {bs : Bytes} {i : Nat} (fits : i + payloadSize ≤ bs.length) :
    (atPosition bs i).toBytes = (bs.drop i).take payloadSize := by
  rw [Bytes.take_drop_eq_map fits]
  rfl

theorem ofView_eq (v : View) :
    ofView v =
      if v.toBytes.length = payloadSize then .ok (atPosition v.toBytes 0)
      else .error (.payloadSize v.toBytes.length) := by
  rw [ofView, View.length_toBytes]
  split_ifs with size
  · congr 1
    apply Vector.ext
    intro i hi
    rw [atPosition, Vector.getElem_ofFn, Vector.getElem_ofFn, Nat.zero_add,
      View.byteAt_toBytes (by omega)]
  · rfl

theorem exists_toBytes {bs : Bytes} (size : bs.length = payloadSize) :
    ∃ p : Payload, p.toBytes = bs :=
  ⟨⟨bs.toArray, size⟩, rfl⟩

theorem ofBytes_toBytes (p : Payload) : ofBytes p.toBytes = .ok p := by
  have size : p.toBytes.length = payloadSize := Vector.length_toList
  rw [ofBytes, ofView_eq, View.toBytes_whole, if_pos size]
  congr 1
  apply Vector.toList_inj.1
  have whole := @toBytes_atPosition p.toBytes 0 (by omega)
  rwa [List.drop_zero, ← size, List.take_length] at whole

theorem ofBytes_of_size {bs : Bytes} (size : bs.length ≠ payloadSize) :
    ofBytes bs = .error (.payloadSize bs.length) := by
  rw [ofBytes, ofView_eq, View.toBytes_whole, if_neg size]

theorem check_entries (p : Payload) : p.entries.check = .ok () := by
  rw [Entries.check_eq_ok_iff]
  intro i
  rw [getElem_entries, Number.isByte_ofByte]

end Payload

/-! ## The ways to make a PING -/

namespace Ping

theorem equals_comm (p q : Ping) : p.equals q = q.equals p := by
  rw [equals, equals, Entries.equals_comm, Bool.beq_comm]

theorem ofEntries_eq_ok_iff {ack : Bool} {a : Entries} {p : Ping} :
    ofEntries ack a = .ok p ↔
      (∀ i : Fin payloadSize, (getElem a i i.isLt).isByte) ∧ p = ⟨ack, a⟩ := by
  rw [← Entries.check_eq_ok_iff, ofEntries]
  cases a.check with
  | ok _ => simp [Except.map, eq_comm]
  | error e => simp [Except.map]

/-- The entries that come from bytes pass the check. -/
theorem ofEntries_entries (ack : Bool) (q : Payload) :
    ofEntries ack q.entries = .ok ⟨ack, q.entries⟩ := by
  rw [ofEntries, Payload.check_entries]
  rfl

theorem load_eq (h : Head) (v : View) :
    load h v =
      if h.onConnection then
        if v.toBytes.length = payloadSize then
          .ok ⟨h.isAck, (Payload.atPosition v.toBytes 0).entries⟩
        else .error (.frame (.payloadSize v.toBytes.length))
      else .error (.frame (.onStream h.streamId)) := by
  rw [load, Payload.ofView_eq]
  split_ifs with onConnection size
  · show (ofEntries h.isAck _).mapError PingError.entry = _
    rw [ofEntries_entries]
    rfl
  · rfl
  · rfl

theorem load_of_ofFrame {v : View} {p : Ping} (read : ofFrame v = .ok p) :
    ∃ h w, load h w = .ok p := by
  unfold ofFrame at read
  split at read
  · cases read
  · dsimp only at read
    split_ifs at read
    exact ⟨_, _, read⟩

/-- That a PING was made, by one of the ways that there are. -/
inductive Made : Ping → Prop
  | probe {a : Entries} {p : Ping} : Ping.probe a = .ok p → Made p
  | pong {a : Entries} {p : Ping} : Ping.pong a = .ok p → Made p
  | load {h : Head} {v : View} {p : Ping} : Ping.load h v = .ok p → Made p
  | ofFrame {v : View} {p : Ping} : Ping.ofFrame v = .ok p → Made p

/-- A PING that was loaded holds the entries of a payload. -/
theorem entries_of_load {h : Head} {v : View} {p : Ping} (loaded : load h v = .ok p) :
    ∃ q : Payload, p.entries = q.entries := by
  rw [load_eq] at loaded
  split_ifs at loaded
  exact ⟨_, by rw [← Except.ok.inj loaded]⟩

/-- A PING that was made holds bytes only. -/
theorem Made.isByte {p : Ping} (made : p.Made) (i : Fin payloadSize) :
    (getElem p.entries i i.isLt).isByte := by
  have loaded {h : Head} {v : View} (l : Ping.load h v = .ok p) :
      (getElem p.entries i i.isLt).isByte := by
    obtain ⟨q, hq⟩ := entries_of_load l
    rw [hq, Payload.getElem_entries, Number.isByte_ofByte]
  cases made with
  | probe h | pong h =>
    obtain ⟨bytes, rfl⟩ := ofEntries_eq_ok_iff.1 h
    exact bytes i
  | load h => exact loaded h
  | ofFrame h =>
    obtain ⟨_, _, l⟩ := load_of_ofFrame h
    exact loaded l

end Ping

end PingCodec
