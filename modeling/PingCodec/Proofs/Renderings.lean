import Mathlib.Tactic.TFAE
import PingCodec.Proofs.Classes
import PingCodec.Proofs.HexRoundTrip
import PingCodec.Proofs.Stream

/-!
# Renderings of PINGs

Equality of PINGs compares their entries as numbers: what is not a number differs from itself, and the
two zeros are equal.  A PING that was made holds bytes only, so that there equality comes down to the
sort and the payload bytes (`Made.equals_iff`).  The frame and the description of a PING tell the same
two things (`frame_eq_iff`, `Made.description_eq_iff`); hence PINGs are equal if and only if they look
alike, in whatever way they are written.
-/

namespace PingCodec

/-- Numbers that are bytes are written in hex as these bytes. -/
theorem Hex.encode_eq_ofBytes {values : List Number} (bytes : ∀ x ∈ values, x.isByte = true) :
    encode values = ofBytes (values.map Number.toByte) := by
  unfold ofBytes encode
  rw [List.map_map, List.flatMap_map]
  congr 1
  apply List.flatMap_congr
  intro x hx
  unfold digitsOf
  rw [← Number.hexDigits_congr (Number.equals_toByte (bytes x hx))]
  rfl

theorem PayloadClass.Same.text_eq {c d : PayloadClass} (same : c.Same d) : c.text = d.text := by
  match c, d, same with
  | .shutdown, .shutdown, _ | .ordinary, .ordinary, _ => rfl
  | .user _, .user _, equal => rw [text, text, Number.text_congr equal]

theorem Json.boolText_inj {a b : Bool} : boolText a = boolText b ↔ a = b := by
  cases a <;> cases b <;> simp [boolText]

namespace Ping

/-! ## Frames -/

theorem payloadBytes_eq_iff (p q : Ping) :
    p.payloadBytes = q.payloadBytes ↔
      ∀ i : Fin payloadSize,
        (getElem p.entries i i.isLt).toByte = (getElem q.entries i i.isLt).toByte := by
  unfold payloadBytes
  rw [← Vector.toList_map, ← Vector.toList_map, Vector.toList_inj, Vector.ext_iff]
  simp [Fin.forall_iff]

/-- A frame tells the sort and the payload of its PING and nothing else. -/
theorem frame_eq_iff (p q : Ping) :
    p.frame = q.frame ↔ p.ack = q.ack ∧ p.payloadBytes = q.payloadBytes := by
  have flags : p.flagByte = q.flagByte ↔ p.ack = q.ack := by
    unfold flagByte
    cases p.ack <;> cases q.ack <;> decide
  rw [frame_eq, frame_eq, ← flags]
  simp

/-! ## PINGs that were made -/

section Made

variable {p q : Ping} (made : p.Made)

include made

/-- The lines that describe a PING, in terms of its bytes. -/
theorem Made.description_eq :
    p.description =
      ["ack: " ++ Json.boolText p.ack, "payload: " ++ Hex.ofBytes p.payloadBytes,
        "class: " ++ p.entries.classify.text] := by
  have bytes : ∀ x ∈ p.entries.toList, x.isByte = true := by
    intro x hx
    obtain ⟨i, hi, rfl⟩ := Vector.mem_iff_getElem.1 (Vector.mem_toList_iff.1 hx)
    exact made.isByte ⟨i, hi⟩
  rw [description, Hex.encode_eq_ofBytes bytes]
  rfl

variable (made' : q.Made)

include made'

/-- PINGs are equal if and only if they are of one sort and carry the same bytes. -/
theorem Made.equals_iff :
    p.equals q = true ↔ p.ack = q.ack ∧ p.payloadBytes = q.payloadBytes := by
  rw [equals, Bool.and_eq_true, beq_iff_eq, Entries.equals_iff, payloadBytes_eq_iff]
  apply and_congr_right'
  apply forall_congr'
  intro i
  exact Number.equals_iff_toByte_eq (made.isByte i) (made'.isByte i)

/-- So do the lines that describe a PING: the class follows from the payload. -/
theorem Made.description_eq_iff :
    p.description = q.description ↔ p.ack = q.ack ∧ p.payloadBytes = q.payloadBytes := by
  constructor
  · intro same
    rw [made.description_eq, made'.description_eq] at same
    simp only [List.cons.injEq, String.append_right_inj, Json.boolText_inj] at same
    exact ⟨same.1, Hex.ofBytes_injective same.2.1⟩
  · intro same
    have equal := (made.equals_iff made').2 same
    rw [equals, Bool.and_eq_true] at equal
    have name := (Entries.sameClass_of_equals equal.2).text_eq
    rw [made.description_eq, made'.description_eq, same.1, same.2, name]

end Made

/-- On PINGs that were made, equality is an equivalence, and equal PINGs are those with the same frame,
those of one sort with the same payload bytes and those with the same description.  A description loses
nothing: it tells the sort, and what stands behind the label of the payload is read as its bytes. -/
theorem equals_observational (log log' : Logger) :
    (Equivalence fun a b : {p : Ping // p.Made} => a.1.equals b.1 = true) ∧
    (∀ a b : Ping, a.Made → b.Made →
      [a.equals b = true, (a.toFrame log).1 = (b.toFrame log').1,
        a.ack = b.ack ∧ a.payloadBytes = b.payloadBytes, a.description = b.description].TFAE) ∧
    ∀ p : Ping, p.Made → ∃ payload name : String,
      p.description =
        [if p.ack then "ack: true" else "ack: false", "payload: " ++ payload, "class: " ++ name] ∧
      Hex.decode payload = .ok p.payloadBytes := by
  refine ⟨⟨fun a => ?_, fun {a b} same => ?_, fun {a b c} same same' => ?_⟩,
    fun a b made made' => ?_, fun p made => ?_⟩
  · exact (a.2.equals_iff a.2).2 ⟨rfl, rfl⟩
  · rw [equals_comm]
    exact same
  · obtain ⟨ack, payload⟩ := (a.2.equals_iff b.2).1 same
    obtain ⟨ack', payload'⟩ := (b.2.equals_iff c.2).1 same'
    exact (a.2.equals_iff c.2).2 ⟨ack.trans ack', payload.trans payload'⟩
  · tfae_have 1 ↔ 3 := made.equals_iff made'
    tfae_have 2 ↔ 3 := frame_eq_iff a b
    tfae_have 4 ↔ 3 := made.description_eq_iff made'
    tfae_finish
  · refine ⟨_, p.entries.classify.text, ?_, Hex.decode_ofBytes p.payloadBytes⟩
    rw [made.description_eq]
    cases p.ack <;> rfl

/-- A user ping with a negative zero for its tag, and one that was read from a frame in which ignored
bits are set: they hold different numbers and are equal, and look alike. -/
theorem equals_observational_negativeZero :
    ∃ p q : Ping, probe ((userBeginning.map Number.ofByte).push .negativeZero) = .ok p ∧
      ofFrame (View.whole ([0, 0, 8, 6, 2, 0x80, 0, 0, 0] ++ (userPayload 0).toBytes)) = .ok q ∧
      p ≠ q ∧ p.equals q = true ∧ (p.toFrame {}).1 = (q.toFrame {}).1 ∧
      p.description = q.description ∧
      p.description = ["ack: false", "payload: 3b7cdb7a0b871600", "class: user:0"] := by
  have first : probe ((userBeginning.map Number.ofByte).push .negativeZero) =
      .ok ⟨false, (userBeginning.map Number.ofByte).push .negativeZero⟩ := by decide +kernel
  have second : ofFrame (View.whole ([0, 0, 8, 6, 2, 0x80, 0, 0, 0] ++ (userPayload 0).toBytes)) =
      .ok ⟨false, (userPayload 0).entries⟩ := by decide +kernel
  have alike := (equals_observational {} {}).2.1 _ _ (.probe first) (.ofFrame second)
  have same := (alike.out 2 0).1 (And.intro rfl (by decide +kernel))
  exact ⟨_, _, first, second, by decide +kernel, same, (alike.out 0 1).1 same,
    (alike.out 0 3).1 same, by decide +kernel⟩

end Ping

end PingCodec
