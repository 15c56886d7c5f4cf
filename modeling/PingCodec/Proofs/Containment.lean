import PingCodec.Proofs.Head

/-!
# Where a header lands

A header that is written takes the nine bytes at its place (`getElem?_write`).  The place is bounded by
the buffer and not by the view, so the bytes around a view are safe if and only if the place has room
in the view (`View.HasRoom`); a view of three bytes in the middle of a buffer is enough to lose a byte
behind it.
-/

namespace PingCodec

/-- That a position of the buffer belongs to a view. -/
def View.Covers (v : View) (j : Nat) : Prop := v.start ≤ j ∧ j < v.start + v.length

/-- That a header at an offset, if it is written at all, has room in the view. -/
def View.HasRoom (v : View) (offset : Number) : Prop :=
  ∀ t : Nat, v.place offset = Number.ofNat t → t + headerSize ≤ v.buffer.length →
    v.start ≤ t ∧ t + headerSize ≤ v.start + v.length

namespace Head

variable {dst : View} {offset : Number}

/-- The buffer after a header was written, byte by byte. -/
theorem getElem?_write {h : Head} {length : Number} {after : Bytes}
    (written : h.write length dst offset = .ok after) :
    ∃ n t : Nat, payloadLength? length = some n ∧ dst.place offset = Number.ofNat t ∧
      t + headerSize ≤ dst.buffer.length ∧
      ∀ j, after[j]? =
        if t ≤ j ∧ j < t + headerSize then (h.wireBytes n)[j - t]? else dst.buffer[j]? := by
  obtain ⟨n, t, fits, place, room, rfl⟩ := write_eq_ok_iff.1 written
  exact ⟨n, t, fits, place, room, Bytes.getElem?_overwrite room⟩

/-- A header in a view with room for it leaves the bytes around the view alone. -/
theorem getElem?_write_of_hasRoom (hasRoom : dst.HasRoom offset) {h : Head} {length : Number}
    {after : Bytes} (written : h.write length dst offset = .ok after) {j : Nat}
    (outside : ¬ dst.Covers j) : after[j]? = dst.buffer[j]? := by
  obtain ⟨n, t, -, place, room, bytes⟩ := getElem?_write written
  obtain ⟨first, last⟩ := hasRoom t place room
  have apart : ¬ (t ≤ j ∧ j < t + headerSize) := by
    rintro ⟨low, high⟩
    exact outside ⟨by omega, by omega⟩
  rw [bytes, if_neg apart]

/-- A header to try a place with: with no payload its first and last bytes are zeros. -/
def zeroEnded : Head := ⟨Number.ofNat 0, Number.ofNat 0, Number.ofNat 0⟩

/-- A header to try the same place with: with a payload of `2 ^ 16` bytes its first and last bytes are
ones. -/
def oneEnded : Head := ⟨Number.ofNat 0, Number.ofNat 0, Number.ofNat 1⟩

theorem wireBytes_zeroEnded : zeroEnded.wireBytes 0 = [0, 0, 0, 0, 0, 0, 0, 0, 0] := by
  decide +kernel

theorem wireBytes_oneEnded : oneEnded.wireBytes (2 ^ 16) = [1, 0, 0, 0, 0, 0, 0, 0, 1] := by
  decide +kernel

/-- Where there is no room in the view, some header changes a byte outside it: of two headers that
differ in their first and last bytes one does. -/
theorem hasRoom_of_write
    (contained : ∀ (h : Head) length after, h.write length dst offset = .ok after →
      ∀ j, ¬ dst.Covers j → after[j]? = dst.buffer[j]?) : dst.HasRoom offset := by
  intro t place room
  have agree (k : Nat) (k_lt : k < headerSize) (outside : ¬ dst.Covers (t + k)) :
      (zeroEnded.wireBytes 0)[k]? = (oneEnded.wireBytes (2 ^ 16))[k]? := by
    have stored (h : Head) (n : Nat) (fits : payloadLength? (Number.ofNat n) = some n) :
        (h.wireBytes n)[k]? = dst.buffer[t + k]? := by
      have written : h.write (Number.ofNat n) dst offset =
          .ok (dst.buffer.overwrite t (h.wireBytes n)) :=
        write_eq_ok_iff.2 ⟨n, t, fits, place, room, rfl⟩
      have inside : t ≤ t + k ∧ t + k < t + (h.wireBytes n).length :=
        ⟨Nat.le_add_right t k, Nat.add_lt_add_left k_lt t⟩
      rw [← contained h _ _ written _ outside, Bytes.getElem?_overwrite room, if_pos inside,
        Nat.add_sub_cancel_left]
    rw [stored zeroEnded 0 (by decide +kernel), stored oneEnded (2 ^ 16) (by decide +kernel)]
  rw [wireBytes_zeroEnded, wireBytes_oneEnded] at agree
  constructor
  · apply Nat.le_of_not_lt
    intro before
    have uncovered : ¬ dst.Covers (t + 0) := fun c => Nat.not_le.2 before c.1
    cases agree 0 (by decide) uncovered
  · apply Nat.le_of_not_lt
    intro behind
    have uncovered : ¬ dst.Covers (t + 8) := fun c => by
      have beyond : dst.start + dst.length < t + 9 := behind
      have within := c.2
      omega
    cases agree 8 (by decide) uncovered

/-- A header that is written takes nine bytes in a row, and no byte around the view is ever lost if
and only if the place has room in the view. -/
theorem write_contained_iff (dst : View) (offset : Number) :
    (∀ (h : Head) length after, h.write length dst offset = .ok after →
      ∃ n t : Nat, payloadLength? length = some n ∧ dst.place offset = Number.ofNat t ∧
        t + headerSize ≤ dst.buffer.length ∧
        ∀ j, after[j]? =
          if t ≤ j ∧ j < t + headerSize then (h.wireBytes n)[j - t]? else dst.buffer[j]?) ∧
    ((∀ (h : Head) length after, h.write length dst offset = .ok after →
      ∀ j, ¬ dst.Covers j → after[j]? = dst.buffer[j]?) ↔ dst.HasRoom offset) :=
  ⟨fun _ _ _ => getElem?_write, hasRoom_of_write,
    fun hasRoom _ _ _ written _ => getElem?_write_of_hasRoom hasRoom written⟩

/-- A header for a view of three bytes is written over bytes that do not belong to it. -/
theorem write_beyond_view :
    let dst := (View.whole (Bytes.zeros 20)).slice 2 (some 5)
    ∃ after, write ⟨Number.ofNat 6, Number.ofNat 1, Number.ofNat 0⟩ (Number.ofNat 8) dst
        (Number.ofNat 1) = .ok after ∧
      ¬ dst.Covers 6 ∧ dst.buffer[6]? = some 0 ∧ after[6]? = some 6 := by
  refine ⟨_, write_eq_ok_iff.2 ⟨8, 3, by decide +kernel, by decide +kernel, by decide, rfl⟩, ?_, rfl,
    by decide +kernel⟩
  intro covered
  exact absurd covered.2 (by decide)

end Head

end PingCodec
