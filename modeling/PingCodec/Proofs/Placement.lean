import Mathlib.Algebra.Order.Monoid.Unbundled.WithTop
import Mathlib.Data.Int.ConditionallyCompleteOrder
import PingCodec.Proofs.Binary64
import PingCodec.Proofs.HeadRoundTrip
import PingCodec.Proofs.Storing

/-!
# Whether a header is written, and what that does

A header is written at the whole part of its place, counted from the start of the buffer
(`exists_place`), unless its length or its place is refused; what is refused changes nothing
(`Head.Refused`).  Otherwise its nine bytes are spliced into the buffer, and every byte array that shares
the buffer shows them where it covers their place (`Head.Lands`).
-/

namespace PingCodec

namespace Number

/-! ## Whole parts -/

/-- The integers with both infinities. -/
abbrev ExtendedInt := WithBot (WithTop Int)

/-- A number without its fraction; what is not a number counts as zero. -/
def wholePart : Number → ExtendedInt
  | infinity true => ⊥
  | infinity false => ⊤
  | x => ((x.truncate : WithTop Int) : ExtendedInt)

theorem wholePart_of_finite {x : Number} (finite : x.withoutFraction.isInfinite = false) :
    x.wholePart = ((x.truncate : WithTop Int) : ExtendedInt) := by
  cases x with
  | infinity s => cases finite
  | nan | negativeZero | rational q => rfl

/-- That a whole part is no position of a byte string, not even the one at its end. -/
theorem outside_iff (x : Number) (n : Nat) :
    x.wholePart < 0 ∨ (n : ExtendedInt) < x.wholePart ↔
      x.withoutFraction.isInfinite = true ∨ x.truncate < 0 ∨ (n : Int) < x.truncate := by
  cases x with
  | infinity s =>
    cases s with
    | false => exact iff_of_true (.inr (WithBot.coe_lt_coe.2 (WithTop.coe_lt_top (n : Int)))) (.inl rfl)
    | true => exact iff_of_true (.inl (WithBot.bot_lt_coe _)) (.inl rfl)
  | nan | negativeZero | rational q =>
    rw [wholePart_of_finite rfl]
    norm_cast
    simp [withoutFraction, isInfinite]

/-- A whole part that is a position of a byte string names it. -/
theorem exists_place {x : Number} {n : Nat}
    (inside : ¬ (x.wholePart < 0 ∨ (n : ExtendedInt) < x.wholePart)) :
    ∃ i : Nat, i ≤ n ∧ x.wholePart = i ∧ x.withoutFraction = ofNat i := by
  rw [outside_iff, not_or, not_or, Bool.not_eq_true] at inside
  obtain ⟨finite, low, high⟩ := inside
  obtain ⟨i, hi⟩ := Int.eq_ofNat_of_zero_le (Int.not_lt.1 low)
  refine ⟨i, by omega, ?_, ?_⟩
  · rw [wholePart_of_finite finite, hi]
    rfl
  · rw [Head.withoutFraction_eq_ofNat_iff, truncate_withoutFraction]
    exact ⟨finite, hi⟩

theorem natCast_lt_add_nine_iff (n i : Nat) : (n : ExtendedInt) < i + 9 ↔ n < i + 9 := by
  norm_cast

/-! ## Sums of positions -/

theorem ofRat_natCast {n : Nat} (small : n < 2 ^ 53) : ofRat n = ofNat n := by
  rw [ofNat, ← isBinary64_iff_ofRat]
  exact ⟨n, 0, small, by norm_num, by norm_num, by simp⟩

/-- Positions are added without rounding. -/
theorem add_of_equals {x : Number} {a k : Nat} (same : x.equals (ofNat k) = true)
    (small : a + k < 2 ^ 53) : (ofNat a).add x = ofNat (a + k) := by
  rcases eq_of_equals_ofNat same with rfl | ⟨rfl, rfl⟩
  · rw [← ofRat_natCast small, Nat.cast_add]
    rfl
  · rw [← ofRat_natCast small]
    rfl

end Number

theorem payloadLength?_eq_some_iff {x : Number} {m : Nat} :
    payloadLength? x = some m ↔ m ≤ 0xffffff ∧ x.equals (Number.ofNat m) = true := by
  constructor
  · intro h
    obtain ⟨natural, small⟩ := Option.filter_eq_some_iff.1 h
    refine ⟨of_decide_eq_true small, ?_⟩
    rcases Number.eq_of_toNat? natural with ⟨rfl, rfl⟩ | rfl
    · decide
    · rw [Number.equals_ofNat, beq_self_eq_true]
  · rintro ⟨small, same⟩
    exact Head.payloadLength?_of_equals same small

/-! ## Splicing -/

/-- What a stretch of a buffer that begins at `start` comes to when a piece is stored at `i` in the
buffer. -/
structure Bytes.Spliced (start : Nat) (piece : Bytes) (i : Nat) (before after : Bytes) : Prop where
  length : after.length = before.length
  getElem? (k : Nat) (h : k < before.length) :
    after[k]? =
      if i ≤ start + k ∧ start + k < i + piece.length then piece[start + k - i]? else before[k]?

theorem View.getElem?_toBytes {v : View} {k : Nat} (h : k < v.length) :
    v.toBytes[k]? = v.buffer[v.start + k]? := by
  rw [toBytes, List.getElem?_take_of_lt h, List.getElem?_drop]

/-- A piece that lies in the stretch is written over it. -/
theorem Bytes.Spliced.eq_overwrite {start k : Nat} {piece before after : Bytes}
    (spliced : Spliced start piece (start + k) before after)
    (room : k + piece.length ≤ before.length) : after = before.overwrite k piece := by
  have length : after.length = (before.overwrite k piece).length := by
    rw [spliced.length, length_overwrite room]
  apply List.ext_getElem?
  intro j
  by_cases h : j < before.length
  · rw [spliced.getElem? j h, getElem?_overwrite room, Nat.add_sub_add_left]
    simp only [Nat.add_le_add_iff_left, Nat.add_assoc, Nat.add_lt_add_iff_left]
  · rw [List.getElem?_eq_none (by rw [spliced.length]; omega),
      List.getElem?_eq_none (by rw [← length, spliced.length]; omega)]

section Spliced

variable {bs piece : Bytes} {i : Nat} (fits : i + piece.length ≤ bs.length)

include fits

theorem Bytes.spliced_overwrite : Spliced 0 piece i bs (bs.overwrite i piece) where
  length := length_overwrite fits
  getElem? k _ := by rw [getElem?_overwrite fits, Nat.zero_add]

/-- Any stretch of the buffer shows what of the piece lies in it. -/
theorem View.spliced_within (start length : Nat) :
    Bytes.Spliced (within bs start length).start piece i (within bs start length).toBytes
      (within (bs.overwrite i piece) start length).toBytes := by
  have size := Bytes.length_overwrite fits
  have same : (within (bs.overwrite i piece) start length).start = (within bs start length).start ∧
      (within (bs.overwrite i piece) start length).length = (within bs start length).length := by
    simp only [within, size, and_self]
  refine ⟨by rw [length_toBytes, length_toBytes, same.2], fun k h => ?_⟩
  rw [length_toBytes] at h
  rw [getElem?_toBytes h, getElem?_toBytes (same.2 ▸ h), same.1]
  exact Bytes.getElem?_overwrite fits _

end Spliced

theorem View.within_self (v : View) : within v.buffer v.start v.length = v := by
  have := v.fits
  obtain ⟨buffer, start, length, fits⟩ := v
  simp only [within, mk.injEq, true_and]
  omega

/-! ## In a session -/

namespace Session.Store

section WriteHead

variable {s : Store} {name : String} {r : ByteRef} (found : s.bytes.find? name = some r) {h : Head}
  {length offset : Number}

include found

theorem advance_writeHead_of_error {e : WriteError} {after : Bytes}
    (failed : (h.put length (s.view r) offset).run (s.view r).buffer = (.error e, after)) :
    s.advance (.writeHead name h length offset) = (s, ⟨.error (.write e), []⟩) := by
  apply advance_of_error (b := { failure := .write e, store := s })
  rw [step, lookup_eq_ok_iff.2 found]
  show s.writeHead r h length offset >>= _ = _
  rw [writeHead_of_put_error failed]
  rfl

theorem advance_writeHead_of_ok {after : Bytes}
    (written : h.write length (s.view r) offset = .ok after) :
    (s.advance (.writeHead name h length offset)).1 = s.setBuffer r.buffer after := by
  have taken : s.step (.writeHead name h length offset) =
      .ok ⟨.bytes ((s.setBuffer r.buffer after).view r).toBytes, s.setBuffer r.buffer after, []⟩ := by
    rw [step, lookup_eq_ok_iff.2 found]
    show s.writeHead r h length offset >>= _ = _
    rw [writeHead_eq_ok_iff.2 ⟨after, written, rfl⟩]
    rfl
  rw [advance_of_step taken]

end WriteHead

theorem view_setBuffer_of_ne {s : Store} {n : Nat} {q : ByteRef} (ne : q.buffer ≠ n)
    (content : Bytes) : (s.setBuffer n content).view q = s.view q :=
  view_congr (List.getElem?_set_ne ne.symm)

theorem view_setBuffer_self {s : Store} {q : ByteRef} (there : q.buffer < s.buffers.length)
    (content : Bytes) :
    (s.setBuffer q.buffer content).view q = View.within content q.start q.length := by
  have set : (s.setBuffer q.buffer content).buffers[q.buffer]? = some content :=
    List.getElem?_set_self there
  rw [view, List.getD_eq_getElem?_getD, set, Option.getD_some]

end Session.Store

/-! ## Writing a header -/

namespace Head

/-- That writing a header is refused with a message, and leaves the buffer and any session as they
are. -/
def Refused (h : Head) (length : Number) (dst : View) (offset : Number) (message : String) : Prop :=
  ∃ e, (h.put length dst offset).run dst.buffer = (.error e, dst.buffer) ∧
    h.write length dst offset = .error e ∧ e.message = message ∧
    ∀ (s : Session.Store) name r, s.bytes.find? name = some r → s.view r = dst →
      s.advance (.writeHead name h length offset) = (s, ⟨.error (.write e), []⟩)

/-- That writing a header stores some bytes at a position of the buffer and changes nothing else; in a
session every byte array in that buffer shows what of them it covers, and no other one changes. -/
def Lands (h : Head) (length : Number) (dst : View) (offset : Number) (bs : Bytes) (i : Nat) : Prop :=
  ∃ after, h.write length dst offset = .ok after ∧ Bytes.Spliced 0 bs i dst.buffer after ∧
    ∀ (s : Session.Store) name r, s.bytes.find? name = some r → s.view r = dst →
      ∀ y q, s.bytes.find? y = some q →
        ∃ shown, ((s.advance (.writeHead name h length offset)).1.advance (.bytesGet y)).2 =
            ⟨.ok (.bytes shown), []⟩ ∧
          (q.buffer = r.buffer →
            Bytes.Spliced (s.view q).start bs i (s.view q).toBytes shown) ∧
          (q.buffer ≠ r.buffer → shown = (s.view q).toBytes)

section

variable (h : Head) {length : Number} (dst : View) (offset : Number)

theorem refused_of_error {e : WriteError} {message : String} {after : Bytes}
    (failed : (h.put length dst offset).run dst.buffer = (.error e, after))
    (text : e.message = message) : h.Refused length dst offset message := by
  refine ⟨e, ?_, write_of_put_error failed, text, ?_⟩
  · rwa [buffer_of_put_error failed] at failed
  rintro s name r found rfl
  exact Session.Store.advance_writeHead_of_error found failed

theorem lands_of_place {m i : Nat} (fits : payloadLength? length = some m)
    (place : dst.place offset = Number.ofNat i) (room : i + headerSize ≤ dst.buffer.length) :
    h.Lands length dst offset (h.wireBytes m) i := by
  have written : h.write length dst offset = .ok (dst.buffer.overwrite i (h.wireBytes m)) :=
    write_eq_ok_iff.2 ⟨m, i, fits, place, room, rfl⟩
  refine ⟨_, written, Bytes.spliced_overwrite room, ?_⟩
  rintro s name r found rfl y q hy
  rw [Session.Store.advance_writeHead_of_ok found written]
  refine ⟨_, Session.Store.bytesGet_of_find? hy, fun same => ?_, fun ne => ?_⟩
  · have room : i + headerSize ≤ (s.buffers.getD q.buffer []).length := same ▸ room
    -- A buffer with room for a header is not one that is missing.
    have there : q.buffer < s.buffers.length := by
      by_contra missing
      rw [List.getD_eq_getElem?_getD, List.getElem?_eq_none (Nat.not_lt.1 missing)] at room
      exact absurd room (Nat.not_succ_le_zero _)
    have content : (s.view r).buffer = s.buffers.getD q.buffer [] := by
      rw [same]
      rfl
    rw [content, ← same, Session.Store.view_setBuffer_self there]
    exact View.spliced_within room q.start q.length
  · rw [Session.Store.view_setBuffer_of_ne ne]

variable {m : Nat} (fits : payloadLength? length = some m)

include fits

theorem run_put_of_outside
    (outside : ((Number.ofNat dst.start).add offset).wholePart < 0 ∨
      (dst.buffer.length : Number.ExtendedInt) < ((Number.ofNat dst.start).add offset).wholePart) :
    (h.put length dst offset).run dst.buffer =
      (.error (.startOutOfBounds (dst.place offset)), dst.buffer) := by
  rw [Number.outside_iff, ← Number.truncate_withoutFraction, ← View.place] at outside
  rw [h.run_put_of_fits dst offset _ fits, if_pos outside]

theorem run_put_of_noRoom {i : Nat} (place : dst.place offset = Number.ofNat i)
    (inside : i ≤ dst.buffer.length) (noRoom : dst.buffer.length < i + 9) :
    (h.put length dst offset).run dst.buffer = (.error .noRoom, dst.buffer) := by
  have bounds : ¬ ((Number.ofNat i).isInfinite = true ∨ (i : Int) < 0 ∨
      (dst.buffer.length : Int) < i) := by
    simp [Number.ofNat, Number.isInfinite]
    omega
  have short : (dst.buffer.length : Int) < i + headerSize := by
    show (dst.buffer.length : Int) < i + 9
    omega
  rw [h.run_put_of_fits dst offset _ fits, place, Number.truncate_ofNat, if_neg bounds, if_pos short]

/-- At a position of a view a header is written if there is room for it in the view, and read back
from there. -/
theorem write_of_room {k : Nat} (position : offset.equals (Number.ofNat k) = true)
    (room : k + headerSize ≤ dst.length) (addressable : dst.buffer.length ≤ 2 ^ 53) :
    ∃ after, h.write length dst offset = .ok after ∧
      (View.within after dst.start dst.length).toBytes =
        dst.toBytes.overwrite k (h.wireBytes m) := by
  have fits' := dst.fits
  replace room : k + 9 ≤ dst.length := room
  have sum := Number.add_of_equals position (by omega : dst.start + k < 2 ^ 53)
  have place : dst.place offset = Number.ofNat (dst.start + k) := by
    rw [View.place, sum, withoutFraction_eq_ofNat_iff, Number.truncate_withoutFraction]
    exact ⟨rfl, Number.truncate_ofNat _⟩
  have inside : dst.start + k + headerSize ≤ dst.buffer.length := by
    show dst.start + k + 9 ≤ _
    omega
  refine ⟨_, write_eq_ok_iff.2 ⟨m, _, fits, place, inside, rfl⟩, ?_⟩
  have spliced := @View.spliced_within _ (h.wireBytes m) _ inside dst.start dst.length
  rw [View.within_self] at spliced
  exact spliced.eq_overwrite (by rwa [View.length_toBytes])

end

/-- Writing a header is refused, and changes nothing, over a length that no header can declare, or else
over a place that lies outside the buffer, or else for want of room behind it.  Otherwise the nine bytes
of the header stand at its place and nothing else has changed; at a position of the view with room for
them they are read back as the header that was written. -/
theorem write_exact (h : Head) (length : Number) (dst : View) (offset : Number) :
    let n := dst.buffer.length
    let t := ((Number.ofNat dst.start).add offset).wholePart
    ((¬ ∃ m ≤ 0xffffff, length.equals (Number.ofNat m) = true) →
      h.Refused length dst offset ("Payload length out of range: " ++ length.text)) ∧
    ∀ m ≤ 0xffffff, length.equals (Number.ofNat m) = true →
      (t < 0 ∨ n < t → h.Refused length dst offset
        ("Start offset " ++ (dst.place offset).text ++ " is outside the bounds of the buffer")) ∧
      (0 ≤ t ∧ t ≤ n ∧ n < t + 9 →
        h.Refused length dst offset "Invalid DataView length 9") ∧
      ∃ bs, h.encode length = .ok bs ∧ bs.length = 9 ∧
        (0 ≤ t ∧ t + 9 ≤ n → ∃ i : Nat, t = i ∧ h.Lands length dst offset bs i) ∧
        ∀ k, offset.equals (Number.ofNat k) = true → k + 9 ≤ dst.length → n ≤ 2 ^ 53 →
          ∃ after, h.write length dst offset = .ok after ∧
            let w := View.within after dst.start dst.length
            ParsedHead.ofView (w.slice k none) = .ok ⟨h.onWire, m⟩ ∧
              w.toBytes = dst.toBytes.overwrite k bs := by
  dsimp only
  refine ⟨fun unfit => ?_, fun m small same => ?_⟩
  · have refused : payloadLength? length = none :=
      Option.eq_none_iff_forall_ne_some.2 fun m fits =>
        unfit ⟨m, payloadLength?_eq_some_iff.1 fits⟩
    exact h.refused_of_error dst offset (h.run_put_of_unfit length dst offset _ refused) rfl
  have fits := payloadLength?_eq_some_iff.2 ⟨small, same⟩
  have nine : (0 : Number.ExtendedInt) ≤ 9 := by norm_cast
  refine ⟨fun outside => ?_, fun bounds => ?_, _, encode_eq fits, length_wireBytes h m,
    fun bounds => ?_, fun k position room addressable => ?_⟩
  · exact h.refused_of_error dst offset (h.run_put_of_outside dst offset fits outside) rfl
  · obtain ⟨low, high, noRoom⟩ := bounds
    obtain ⟨i, inside, whole, place⟩ := Number.exists_place (not_or.2 ⟨not_lt.2 low, not_lt.2 high⟩)
    rw [whole, Number.natCast_lt_add_nine_iff] at noRoom
    exact h.refused_of_error dst offset (h.run_put_of_noRoom dst offset fits place inside noRoom) rfl
  · obtain ⟨low, room⟩ := bounds
    have high := le_trans (le_add_of_nonneg_right nine) room
    obtain ⟨i, inside, whole, place⟩ := Number.exists_place (not_or.2 ⟨not_lt.2 low, not_lt.2 high⟩)
    rw [whole, ← not_lt, Number.natCast_lt_add_nine_iff] at room
    exact ⟨i, whole, h.lands_of_place dst offset fits place (Nat.not_lt.1 room)⟩
  · obtain ⟨after, written, shown⟩ := h.write_of_room dst offset fits position room addressable
    refine ⟨after, written, ?_, shown⟩
    apply ParsedHead.ofView_wireBytes _ small
    · exact dst.toBytes.drop (k + headerSize)
    have front : (dst.toBytes.take k).length = k := by
      rw [List.length_take, View.length_toBytes]
      omega
    show ((View.within after dst.start dst.length).drop k).toBytes = _
    rw [View.toBytes_drop, shown, Bytes.overwrite, length_wireBytes, List.append_assoc]
    exact List.drop_left' front

/-- A view of the last eight bytes of a buffer is refused a header at its start, for want of room, but
takes one that begins before it, at the whole part of a fraction. -/
theorem write_exact_fraction :
    let h : Head := ⟨Number.ofNat 6, Number.ofNat 1, Number.ofNat 0⟩
    let all := View.whole (Bytes.zeros 20)
    let tail := all.slice 12 (some 20)
    h.Refused .nan tail .nan "Payload length out of range: NaN" ∧
    h.Refused (Number.ofNat 8) tail (Number.ofNat 9)
      "Start offset 21 is outside the bounds of the buffer" ∧
    h.Refused (Number.ofNat 8) tail (Number.ofNat 0) "Invalid DataView length 9" ∧
    h.Lands (Number.ofNat 8) tail (.rational (-5/2)) [0, 0, 8, 6, 1, 0, 0, 0, 0] 9 ∧
    ∃ after, h.write (Number.ofNat 8) all (Number.ofNat 3) = .ok after ∧
      ParsedHead.ofView ((View.within after 0 20).slice 3 none) = .ok ⟨h.onWire, 8⟩ := by
  intro h all tail
  have eight : (Number.ofNat 8).equals (Number.ofNat 8) = true := by decide
  have written := fun dst offset => (write_exact h (Number.ofNat 8) dst offset).2 8 (by decide) eight
  refine ⟨?_, ?_, ?_, ?_, ?_⟩
  · apply (write_exact h .nan tail .nan).1
    rintro ⟨m, -, same⟩
    cases same
  · have position : (tail.place (Number.ofNat 9)).text = "21" := by decide +kernel
    have outside := (written tail (Number.ofNat 9)).1 (.inr (by decide +kernel))
    rw [position] at outside
    exact outside
  · apply (written tail (Number.ofNat 0)).2.1
    decide +kernel
  · obtain ⟨bs, encoded, -, lands, -⟩ := (written tail (.rational (-5/2))).2.2
    obtain ⟨i, place, lands⟩ := lands (by decide +kernel)
    have nine : ((Number.ofNat tail.start).add (.rational (-5/2))).wholePart = (9 : Nat) := by
      decide +kernel
    have there : i = 9 := by exact_mod_cast place.symm.trans nine
    have bytes : h.encode (Number.ofNat 8) = .ok [0, 0, 8, 6, 1, 0, 0, 0, 0] := by decide +kernel
    rw [← there, Except.ok.inj (bytes.symm.trans encoded)]
    exact lands
  · obtain ⟨bs, -, -, -, read⟩ := (written all (Number.ofNat 3)).2.2
    obtain ⟨after, stored, parsed, -⟩ := read 3 (by decide) (by decide) (by decide)
    exact ⟨after, stored, parsed⟩

end Head

end PingCodec
