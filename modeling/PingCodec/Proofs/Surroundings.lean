import PingCodec.Proofs.Decoding
import PingCodec.Proofs.Steps

/-!
# The bytes around a view

Whatever reads bytes is given a view and looks at the buffer behind it.  What it finds depends on
the bytes of the view alone, so that two views with the same bytes are read alike, wherever in their
buffers they lie and whatever lies around them (`ofView_eq_of_toBytes_eq`, …).  The steps of a session
that read a byte array answer by those bytes as well (`answer_read`), and they store nothing
(`buffers_read`).
-/

namespace PingCodec

/-! ## Views with the same bytes -/

section SameBytes

variable {v w : View} (same : v.toBytes = w.toBytes)

include same

theorem ParsedHead.ofView_eq_of_toBytes_eq : ParsedHead.ofView v = ParsedHead.ofView w := by
  rw [ofView_eq, ofView_eq, same]

theorem Payload.ofView_eq_of_toBytes_eq : Payload.ofView v = Payload.ofView w := by
  rw [ofView_eq, ofView_eq, same]

theorem Ping.load_eq_of_toBytes_eq (h : Head) : Ping.load h v = Ping.load h w := by
  rw [load_eq, load_eq, same]

theorem Ping.ofFrame_eq_of_toBytes_eq : Ping.ofFrame v = Ping.ofFrame w := by
  rw [ofFrame_eq, ofFrame_eq, same]

end SameBytes

namespace Session

/-! ## Steps that read -/

/-- What a byte array is read for. -/
inductive Reading where
  | head
  | payload (array : String)
  | load (name : String) (head : Head)
  | frame (name : String)

/-- The step that reads a byte array. -/
def Reading.step (bytes : String) : Reading → Step
  | head => .parseHead bytes
  | payload array => .fromBytes array bytes
  | load name h => .load name h bytes
  | frame name => .decode name bytes

/-- What is read from a view. -/
def Reading.result (v : View) : Reading → Except Failure Reply
  | head => (orFrame (ParsedHead.ofView v)).map .head
  | payload _ => (orFrame (Payload.ofView v)).map fun p => .entries p.entries
  | load _ h => (orPing (Ping.load h v)).map .ping
  | frame _ => (orPing (Ping.ofFrame v)).map .ping

variable {v w : View}

namespace Store

variable {s : Store} {bytes : String}

/-- That a name stands for a byte array, seen as a view of its buffer. -/
def Shows (s : Store) (bytes : String) (v : View) : Prop :=
  ∃ r, s.bytes.find? bytes = some r ∧ s.view r = v

/-- Reading stores nothing, whether it fails or not. -/
theorem buffers_read (s : Store) (bytes : String) (reading : Reading) :
    (s.advance (reading.step bytes)).1.buffers = s.buffers := by
  cases taken : s.step (reading.step bytes) with
  | error b => rw [advance_of_error taken]
  | ok e =>
    rw [advance_of_step taken]
    cases reading with
    | head | payload | load | frame =>
      obtain ⟨_, -, taken⟩ := bind_eq_ok.1 taken
      obtain ⟨_, -, taken⟩ := bind_eq_ok.1 taken
      cases taken
      rfl

theorem answer_of_step {α : Type} {step : Step} {x : Except Failure α} {reply : α → Reply}
    {after : α → Store} (taken : s.step step = s.attempt x >>= fun a => .ok ⟨reply a, after a, []⟩) :
    (s.advance step).2 = ⟨x.map reply, []⟩ := by
  rw [advance, taken]
  cases x <;> rfl

/-- A step that reads a byte array answers with what is read from its view. -/
theorem answer_read (shown : s.Shows bytes v) (reading : Reading) :
    (s.advance (reading.step bytes)).2 = ⟨reading.result v, []⟩ := by
  obtain ⟨r, found, rfl⟩ := shown
  have looked := lookup_eq_ok_iff.2 found
  cases reading with
  | head => exact answer_of_step (by rw [Reading.step, step, looked]; rfl)
  | payload array => exact answer_of_step (by rw [Reading.step, step, looked]; rfl)
  | load name h => exact answer_of_step (by rw [Reading.step, step, looked]; rfl)
  | frame name => exact answer_of_step (by rw [Reading.step, step, looked]; rfl)

end Store

theorem Reading.result_eq_of_toBytes_eq (same : v.toBytes = w.toBytes) (reading : Reading) :
    reading.result v = reading.result w := by
  cases reading with
  | head => rw [result, ParsedHead.ofView_eq_of_toBytes_eq same, result]
  | payload array => rw [result, Payload.ofView_eq_of_toBytes_eq same, result]
  | load name h => rw [result, Ping.load_eq_of_toBytes_eq same, result]
  | frame name => rw [result, Ping.ofFrame_eq_of_toBytes_eq same, result]

end Session

/-! ## Two buffers -/

/-- Views of any two buffers that hold the same bytes are read alike, down to the errors.  In any two
sessions the steps that read byte arrays with these views answer with what is read, and the buffers of
both sessions stay as they are. -/
theorem read_eq_of_toBytes_eq {v w : View} (same : v.toBytes = w.toBytes) :
    ParsedHead.ofView v = ParsedHead.ofView w ∧ Payload.ofView v = Payload.ofView w ∧
    (∀ h, Ping.load h v = Ping.load h w) ∧ Ping.ofFrame v = Ping.ofFrame w ∧
    ∀ (s t : Session.Store) (bytes other : String), s.Shows bytes v → t.Shows other w →
      ∀ reading : Session.Reading,
        (s.advance (reading.step bytes)).2 = ⟨reading.result v, []⟩ ∧
        (t.advance (reading.step other)).2 = ⟨reading.result v, []⟩ ∧
        (s.advance (reading.step bytes)).1.buffers = s.buffers ∧
        (t.advance (reading.step other)).1.buffers = t.buffers := by
  refine ⟨ParsedHead.ofView_eq_of_toBytes_eq same, Payload.ofView_eq_of_toBytes_eq same,
    Ping.load_eq_of_toBytes_eq same, Ping.ofFrame_eq_of_toBytes_eq same, ?_⟩
  intro s t bytes other shown shown' reading
  refine ⟨Session.Store.answer_read shown reading, ?_, s.buffers_read bytes reading,
    t.buffers_read other reading⟩
  rw [Session.Store.answer_read shown' reading, reading.result_eq_of_toBytes_eq same]

/-- A frame of a response that lies between other bytes, and the same frame by itself; and five bytes
in a buffer that is long enough for a header. -/
theorem read_eq_of_toBytes_eq_inside :
    let frame : Bytes := [0, 0, 8, 6, 1, 0, 0, 0, 0, 1, 2, 3, 4, 5, 6, 7, 8]
    let v := (View.whole ([9, 9, 9] ++ frame ++ [7])).slice 3 (some 20)
    let short := (View.whole frame).slice 2 (some 7)
    (v.toBytes = frame ∧ Ping.ofFrame v = Ping.ofFrame (View.whole frame) ∧
      ∃ p, Ping.ofFrame v = .ok p) ∧
    short.toBytes = [8, 6, 1, 0, 0] ∧
      ParsedHead.ofView short = ParsedHead.ofView (View.whole [8, 6, 1, 0, 0]) ∧
      ParsedHead.ofView short = .error (.shortHeader 5) := by
  intro frame v short
  have inside : v.toBytes = (View.whole frame).toBytes := by decide
  have cut : short.toBytes = (View.whole [8, 6, 1, 0, 0]).toBytes := by decide
  obtain ⟨-, -, -, frames, -⟩ := read_eq_of_toBytes_eq inside
  obtain ⟨headers, -⟩ := read_eq_of_toBytes_eq cut
  refine ⟨⟨inside, frames, ?_⟩, cut, headers, rfl⟩
  rw [frames]
  exact ⟨_, Ping.ofFrame_eq_ok_iff.2 ⟨by decide, rfl⟩⟩

end PingCodec
