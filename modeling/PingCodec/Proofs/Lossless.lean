import PingCodec.Proofs.Immutability
import PingCodec.Proofs.Stream

/-!
# Entries that bytes can hold

A number passes for a byte if and only if it equals the byte that it is written as
(`isByte_iff_equals_toByte`), so that the check of a PING refuses what writing would change and
nothing else.  Every PING of a session was made in one of the ways that check (`checked_after`);
whatever it hands out or writes is therefore equal to what it holds.
-/

namespace PingCodec

theorem Number.isByte_iff_equals_toByte (x : Number) :
    x.isByte = true ↔ (Number.ofByte x.toByte).equals x = true := by
  constructor
  · exact equals_toByte
  · intro same
    rw [equals_comm, ofByte] at same
    have bound := x.toByte.toNat_lt
    rw [isByte, toNat?_of_equals same]
    simpa using by omega

example : Number.negativeZero.isByte = true ∧ (Number.ofNat 256).isByte = false ∧
    (Number.rational (3 / 2)).isByte = false ∧ Number.nan.isByte = false := by decide +kernel

/-! ## The check of entries -/

namespace Entries

/-- That every entry equals the byte that it is written as. -/
def Lossless (a : Entries) : Prop :=
  ∀ i : Fin payloadSize,
    (Number.ofByte (getElem a i i.isLt).toByte).equals (getElem a i i.isLt) = true

theorem check_eq_ok_iff_lossless (a : Entries) : a.check = .ok () ↔ a.Lossless := by
  rw [check_eq_ok_iff]
  exact forall_congr' fun i => Number.isByte_iff_equals_toByte (getElem a i i.isLt)

/-- What is refused is the first entry that is no byte. -/
theorem first_of_check_eq_error {a : Entries} {e : EntryError} (h : a.check = .error e) :
    e.value = getElem a e.index e.index.isLt ∧ (getElem a e.index e.index.isLt).isByte = false ∧
      ∀ j < e.index, (getElem a j j.isLt).isByte = true := by
  unfold check at h
  split at h
  · rename_i i found
    rw [← Except.error.inj h]
    obtain ⟨bad, k, hk, place, before⟩ := List.find?_eq_some_iff_getElem.1 found
    rw [List.getElem_finRange] at place
    subst place
    refine ⟨rfl, by simpa using bad, fun j hj => ?_⟩
    have earlier : j.val < k := hj
    have passed := before j.val earlier
    rw [List.getElem_finRange] at passed
    simpa using passed
  · cases h

end Entries

/-! ## Making PINGs -/

namespace Ping

theorem exists_ofEntries_eq_ok_iff (ack : Bool) (a : Entries) :
    (∃ p, ofEntries ack a = .ok p) ↔ a.Lossless := by
  rw [← Entries.check_eq_ok_iff_lossless, ofEntries]
  cases a.check <;> simp [Except.map]

theorem ofEntries_eq_error_iff {ack : Bool} {a : Entries} {e : EntryError} :
    ofEntries ack a = .error e ↔ a.check = .error e := by
  rw [ofEntries]
  cases a.check <;> simp [Except.map]

theorem frame_of_load_eq_error {h : Head} {v : View} {e : PingError} (failed : load h v = .error e) :
    ∃ f, e = .frame f := by
  rw [load_eq] at failed
  split_ifs at failed <;> exact ⟨_, (Except.error.inj failed).symm⟩

/-- The bytes that a PING hands out and those at the end of its frame are its entries. -/
theorem Made.equals_bytes {p : Ping} (made : p.Made) (i : Fin payloadSize) :
    ∃ b, p.payloadBytes[i.val]? = some b ∧ p.frame[headerSize + i.val]? = some b ∧
      (Number.ofByte b).equals (getElem p.entries i i.isLt) = true := by
  refine ⟨(getElem p.entries i i.isLt).toByte, ?_, ?_, Number.equals_toByte (made.isByte i)⟩
  · simp [payloadBytes]
  · rw [frame_eq, List.getElem?_append_right (by simp)]
    simp [payloadBytes]

end Ping

/-! ## Sessions -/

namespace Session.Store

/-- A step that puts a PING under a name makes it in one of the ways that check. -/
theorem made_of_step {s : Store} {step : Step} {e : Effect} (taken : s.step step = .ok e)
    {name : String} (makes : step.makes? = some name) {p : Ping} (reply : e.reply = .ping p) :
    p.Made := by
  cases step with
  | make ack name source =>
    obtain ⟨a, -, taken⟩ := bind_eq_ok.1 taken
    obtain ⟨q, made, taken⟩ := bind_eq_ok.1 taken
    cases taken
    obtain rfl := Reply.ping.inj reply
    have made := mapError_eq_ok_iff.1 (attempt_eq_ok_iff.1 made)
    cases ack with
    | false => exact .probe made
    | true => exact .pong made
  | load name head bytes =>
    obtain ⟨r, -, taken⟩ := bind_eq_ok.1 taken
    obtain ⟨q, made, taken⟩ := bind_eq_ok.1 taken
    cases taken
    obtain rfl := Reply.ping.inj reply
    exact .load (mapError_eq_ok_iff.1 (attempt_eq_ok_iff.1 made))
  | decode name bytes =>
    obtain ⟨r, -, taken⟩ := bind_eq_ok.1 taken
    obtain ⟨q, made, taken⟩ := bind_eq_ok.1 taken
    cases taken
    obtain rfl := Reply.ping.inj reply
    exact .ofFrame (mapError_eq_ok_iff.1 (attempt_eq_ok_iff.1 made))
  | _ => cases makes

/-- That every PING has a frozen array and was made in one of the ways that check. -/
def Checked (s : Store) : Prop :=
  ∀ name r, s.pings.find? name = some r → ∃ a, s.Frozen r.array a ∧ (Ping.mk r.ack a).Made

theorem checked_step {s : Store} {step : Step} {e : Effect} (taken : s.step step = .ok e)
    (h : s.Checked) : e.store.Checked := by
  intro name r bound
  rcases ref_of_step taken bound with old | ⟨p, makes, reply, ack, frozen⟩
  · obtain ⟨a, frozen, made⟩ := h name r old
    exact ⟨a, frozen_step taken frozen, made⟩
  · refine ⟨p.entries, frozen, ?_⟩
    rw [ack]
    exact made_of_step taken makes reply

/-- Every PING of a session was made in one of the ways that check. -/
theorem checked_after (steps : List Step) : (({} : Store).after steps).Checked := by
  have empty : ({} : Store).Checked := by
    intro _ _ bound
    cases bound
  exact after_induction (P := Checked) (fun taken => checked_step taken) empty steps

theorem made_of_find? {steps : List Step} {name : String} {r : PingRef}
    (bound : (({} : Store).after steps).pings.find? name = some r) :
    ((({} : Store).after steps).ping r).Made := by
  obtain ⟨a, frozen, made⟩ := checked_after steps name r bound
  rwa [ping_of_frozen frozen]

end Session.Store

/-- Eight numbers make a PING, of either sort, if and only if each of them equals the byte that it
is written as; otherwise both sorts are refused with one error, over the first entry that does not.
In a session the bytes that a PING hands out, and the last eight of its frame, equal the entries that
it hands out, whatever way it was made; no entry of a PING that is loaded or read from a frame is
ever refused. -/
theorem Ping.entries_lossless :
    (∀ a : Entries,
      ((∃ p, Ping.probe a = .ok p) ↔ a.Lossless) ∧ ((∃ p, Ping.pong a = .ok p) ↔ a.Lossless) ∧
      (¬ a.Lossless → ∃ e : EntryError, Ping.probe a = .error e ∧ Ping.pong a = .error e ∧
        e.value = getElem a e.index e.index.isLt ∧
        (Number.ofByte (getElem a e.index e.index.isLt).toByte).equals
          (getElem a e.index e.index.isLt) = false ∧
        (∀ j < e.index,
          (Number.ofByte (getElem a j j.isLt).toByte).equals (getElem a j j.isLt) = true) ∧
        e.message = s!"PING payload byte {e.index.val} is not in 0..255: {e.value.text}")) ∧
    (∀ steps : List Session.Step,
      let s := ({} : Session.Store).after steps
      ∀ name r, s.pings.find? name = some r → ∃ (a : Entries) (bs frame : Bytes),
        (∀ array, (s.advance (.payloadOf name array)).2.result = .ok (.entries a)) ∧
        (∀ bytes, (s.advance (.intoPayload name bytes)).2.result = .ok (.bytes bs)) ∧
        (∀ bytes, (s.advance (.encodePing name bytes)).2.result = .ok (.bytes frame)) ∧
        bs.length = 8 ∧ frame.length = 17 ∧
        ∀ i : Fin payloadSize, ∃ b, bs[i.val]? = some b ∧ frame[9 + i.val]? = some b ∧
          (Number.ofByte b).equals (getElem a i i.isLt) = true) ∧
    (∀ h v e, Ping.load h v ≠ .error (.entry e)) ∧ ∀ v e, Ping.ofFrame v ≠ .error (.entry e) := by
  refine ⟨fun a => ⟨Ping.exists_ofEntries_eq_ok_iff _ a, Ping.exists_ofEntries_eq_ok_iff _ a, ?_⟩,
    fun steps => ?_, fun h v e failed => ?_, fun v e failed => ?_⟩
  · intro lossy
    rw [← Entries.check_eq_ok_iff_lossless] at lossy
    cases failed : a.check with
    | ok _ => exact absurd failed lossy
    | error e =>
      obtain ⟨value, bad, before⟩ := Entries.first_of_check_eq_error failed
      have refused (ack : Bool) : Ping.ofEntries ack a = .error e :=
        Ping.ofEntries_eq_error_iff.2 failed
      refine ⟨e, refused false, refused true, value, ?_, ?_, rfl⟩
      · rw [Bool.eq_false_iff] at bad ⊢
        rwa [ne_eq, ← Number.isByte_iff_equals_toByte]
      · intro j hj
        exact Number.equals_toByte (before j hj)
  · intro s name r bound
    have answers := Session.Store.answersFor_of_find? bound
    exact ⟨_, _, _, answers.payloadOf, answers.intoPayload, answers.encodePing,
      Ping.length_payloadBytes _, Ping.length_frame _, (Session.Store.made_of_find? bound).equals_bytes⟩
  · obtain ⟨f, hf⟩ := Ping.frame_of_load_eq_error failed
    cases hf
  · obtain ⟨f, hf⟩ := Ping.frame_of_ofFrame_eq_error failed
    cases hf

/-- Bytes make a PING, one of them a negative zero, and of two numbers that are no bytes the first is
refused. -/
theorem Ping.entries_lossless_first :
    let bytes : Entries := (Payload.entries #v[0, 1, 2, 3, 4, 5, 6, 7]).set 0 .negativeZero
    let others : Entries := (bytes.set 2 (Number.ofNat 256)).set 3 .nan
    let s := ({} : Session.Store).after [.make true "pong" (.entries bytes)]
    (∃ p, Ping.pong bytes = .ok p) ∧
    (∃ e : EntryError, Ping.pong others = .error e ∧
      e.message = "PING payload byte 2 is not in 0..255: 256") ∧
    ∃ bs frame : Bytes, (s.advance (.intoPayload "pong" "bytes")).2.result = .ok (.bytes bs) ∧
      (s.advance (.encodePing "pong" "bytes")).2.result = .ok (.bytes frame) ∧
      bs.length = 8 ∧ frame.length = 17 := by
  intro bytes others s
  obtain ⟨numbers, sessions, -⟩ := Ping.entries_lossless
  have lossless : bytes.Lossless := by
    unfold Entries.Lossless
    decide +kernel
  have refused : Ping.pong others = .error ⟨2, Number.ofNat 256⟩ := by decide +kernel
  have lossy : ¬ others.Lossless := by
    unfold Entries.Lossless
    decide +kernel
  refine ⟨(numbers bytes).2.1.2 lossless, ?_, ?_⟩
  · obtain ⟨e, -, failed, -, -, -, message⟩ := (numbers others).2.2 lossy
    obtain rfl := Except.error.inj (failed.symm.trans refused)
    exact ⟨_, failed, message.trans (by decide +kernel)⟩
  · have bound : s.pings.find? "pong" = some ⟨true, 0⟩ := by decide +kernel
    obtain ⟨-, bs, frame, -, handed, encoded, size, length, -⟩ :=
      sessions [.make true "pong" (.entries bytes)] "pong" _ bound
    exact ⟨bs, frame, handed "bytes", encoded "bytes", size, length⟩

end PingCodec
