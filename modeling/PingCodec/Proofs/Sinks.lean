import PingCodec.Proofs.Steps
import PingCodec.Proofs.Stream

/-!
# What sinks hold

A byte buffer keeps its bytes in a buffer of a session that no byte array lies in (`Apart`), so that
only the steps that name a sink change it (`keeps_step`).  What it holds after a run is told by the
pieces that it was handed since it was last cleared (`sink_after`).
-/

namespace PingCodec

theorem Bindings.find?_bind {α : Type} (bindings : Bindings α) (name other : String) (x : α) :
    (bindings.bind name x).find? other = if other = name then some x else bindings.find? other := by
  split_ifs with same
  · rw [same, find?_bind_self]
  · exact find?_bind_of_ne _ _ same

namespace Session

/-- The sink that a step hands something to or clears. -/
def Step.sink? : Step → Option String
  | .encode _ sink | .put sink _ | .clear sink => some sink
  | _ => none

namespace Store

/-! ## Pieces -/

/-- The sink under a name once it was handed some pieces: a recorder keeps them apart, a byte buffer
joins them. -/
def sinkOf (name : String) (pieces : List Bytes) : Sink :=
  match freshSink name with
  | .recorder _ => .recorder ⟨pieces⟩
  | .buffer _ => .buffer ⟨pieces.flatten⟩

/-- What a step hands to its sink, unless it fails. -/
def piece? (s : Store) : Step → Option Bytes
  | .encode ping _ => (s.pings.find? ping).map fun r => ((s.ping r).toFrame s.log).1
  | .put _ bytes => (s.bytes.find? bytes).map fun r => (s.view r).toBytes
  | _ => none

/-- The pieces that a sink was handed since it was last cleared, after one more step. -/
def collect (s : Store) (name : String) (pieces : List Bytes) (step : Step) : List Bytes :=
  if step.sink? = some name then
    match step with
    | .clear _ => []
    | _ => pieces ++ (s.piece? step).toList
  else pieces

/-- The pieces that a sink was handed since it was last cleared, after a series of steps. -/
def collectAll (name : String) : Store → List Bytes → List Step → List Bytes
  | _, pieces, [] => pieces
  | s, pieces, step :: rest =>
    collectAll name (s.advance step).1 (s.collect name pieces step) rest

theorem sinkOf_nil (name : String) : sinkOf name [] = freshSink name := by
  unfold sinkOf freshSink
  split_ifs <;> rfl

theorem put_sinkOf (name : String) (pieces : List Bytes) (piece : Bytes) :
    (sinkOf name pieces).put piece = sinkOf name (pieces ++ [piece]) := by
  unfold sinkOf
  cases freshSink name with
  | recorder r => rfl
  | buffer b =>
    show Sink.buffer ⟨pieces.flatten ++ piece⟩ = Sink.buffer ⟨(pieces ++ [piece]).flatten⟩
    rw [List.flatten_append, List.flatten_singleton]

theorem clear_sinkOf (name : String) (pieces : List Bytes) :
    (sinkOf name pieces).clear = sinkOf name [] := by
  unfold sinkOf
  cases freshSink name <;> rfl

theorem toBytes_sinkOf (name : String) (pieces : List Bytes) :
    (sinkOf name pieces).toBytes = pieces.flatten := by
  unfold sinkOf
  cases freshSink name <;> rfl

/-! ## Buffers of sinks -/

/-- That byte arrays and byte buffers lie in buffers that are there, and never in the same one. -/
structure Apart (s : Store) : Prop where
  bytes {name : String} {r : ByteRef} : s.bytes.find? name = some r → r.buffer < s.buffers.length
  sinks {sink : String} {n : Nat} :
    s.sinks.find? sink = some (.buffer n) → n < s.buffers.length
  disjoint {name sink : String} {r : ByteRef} {n : Nat} :
    s.bytes.find? name = some r → s.sinks.find? sink = some (.buffer n) → r.buffer ≠ n

/-- That a store comes after another one and has the same sinks. -/
structure Keeps (s t : Store) : Prop where
  apart : t.Apart
  sink (name : String) : t.sink name = s.sink name

theorem Keeps.trans {s t u : Store} (first : Keeps s t) (second : Keeps t u) : Keeps s u :=
  ⟨second.apart, fun name => (second.sink name).trans (first.sink name)⟩

/-- A sink changes only with its name or its buffer. -/
theorem sink_congr {s t : Store} {name : String}
    (bound : t.sinks.find? name = s.sinks.find? name)
    (content : ∀ n, s.sinks.find? name = some (.buffer n) → t.buffers[n]? = s.buffers[n]?) :
    t.sink name = s.sink name := by
  rw [sink, sink, bound]
  split
  · rename_i n found
    rw [List.getD_eq_getElem?_getD, List.getD_eq_getElem?_getD, content n found]
  · rfl
  · rfl

section Keeps

variable {s : Store} (apart : s.Apart)

include apart

theorem keeps_of_eq {t : Store} (buffers : t.buffers = s.buffers) (bytes : t.bytes = s.bytes)
    (sinks : t.sinks = s.sinks) : Keeps s t where
  apart := by
    constructor
    · rw [bytes, buffers]
      exact apart.bytes
    · rw [sinks, buffers]
      exact apart.sinks
    · rw [bytes, sinks]
      exact apart.disjoint
  sink name := sink_congr (by rw [sinks]) fun n _ => by rw [buffers]

/-- Another byte array in the buffer of one that is there. -/
theorem keeps_bindBytes {target : String} {r r' : ByteRef} (found : s.bytes.find? target = some r)
    (same : r'.buffer = r.buffer) (name : String) : Keeps s (s.bindBytes name r') where
  apart := by
    have either {other : String} {q : ByteRef}
        (bound : (s.bindBytes name r').bytes.find? other = some q) :
        ∃ from' q', s.bytes.find? from' = some q' ∧ q.buffer = q'.buffer := by
      rw [bindBytes, Bindings.find?_bind] at bound
      split_ifs at bound
      · obtain rfl := Option.some.inj bound
        exact ⟨_, _, found, same⟩
      · exact ⟨_, _, bound, rfl⟩
    constructor
    · intro other q bound
      obtain ⟨_, _, old, eq⟩ := either bound
      rw [eq]
      exact apart.bytes old
    · exact apart.sinks
    · intro other sink q n bound taken
      obtain ⟨_, _, old, eq⟩ := either bound
      rw [eq]
      exact apart.disjoint old taken
  sink _ := rfl

/-- A write to the buffer of a byte array. -/
theorem keeps_setBuffer {target : String} {r : ByteRef} (found : s.bytes.find? target = some r)
    (content : Bytes) : Keeps s (s.setBuffer r.buffer content) where
  apart := by
    have length : (s.setBuffer r.buffer content).buffers.length = s.buffers.length :=
      List.length_set
    constructor
    · rw [length]
      exact apart.bytes
    · rw [length]
      exact apart.sinks
    · exact apart.disjoint
  sink name := sink_congr rfl fun n taken =>
    List.getElem?_set_ne (apart.disjoint found taken)

/-- A byte array in a new buffer. -/
theorem keeps_allocate (name : String) (content : Bytes) : Keeps s (s.allocate name content) where
  apart := by
    have length : (s.allocate name content).buffers.length = s.buffers.length + 1 :=
      List.length_append
    constructor
    · intro other r bound
      rw [allocate, Bindings.find?_bind] at bound
      rw [length]
      split_ifs at bound
      · obtain rfl := Option.some.inj bound
        exact Nat.lt_succ_self _
      · exact Nat.lt_succ_of_lt (apart.bytes bound)
    · intro sink n taken
      rw [length]
      exact Nat.lt_succ_of_lt (apart.sinks taken)
    · intro other sink r n bound taken
      rw [allocate, Bindings.find?_bind] at bound
      split_ifs at bound
      · obtain rfl := Option.some.inj bound
        exact (apart.sinks taken).ne'
      · exact apart.disjoint bound taken
  sink other := sink_congr rfl fun n taken => List.getElem?_append_left (apart.sinks taken)

/-- A sink in place of the one under a name; the others stay. -/
theorem sink_bindSink (name other : String) (state : Sink) :
    (s.bindSink name state).sink other = if other = name then state else s.sink other := by
  split_ifs with same
  · subst same
    cases state with
    | buffer b =>
      simp only [sink, bindSink, Bindings.find?_bind_self, List.getD_eq_getElem?_getD,
        List.getElem?_concat_length, Option.getD_some]
    | recorder r => simp only [sink, bindSink, Bindings.find?_bind_self]
  · cases state with
    | buffer b =>
      exact sink_congr (Bindings.find?_bind_of_ne _ _ same) fun n taken =>
        List.getElem?_append_left (apart.sinks taken)
    | recorder r => exact sink_congr (Bindings.find?_bind_of_ne _ _ same) fun _ _ => rfl

theorem apart_bindSink (name : String) (state : Sink) : (s.bindSink name state).Apart := by
  cases state with
  | buffer b =>
    have length : (s.bindSink name (.buffer b)).buffers.length = s.buffers.length + 1 :=
      List.length_append
    constructor
    · intro other r bound
      rw [length]
      exact Nat.lt_succ_of_lt (apart.bytes bound)
    · intro sink n taken
      rw [bindSink, Bindings.find?_bind] at taken
      rw [length]
      split_ifs at taken
      · cases taken
        exact Nat.lt_succ_self _
      · exact Nat.lt_succ_of_lt (apart.sinks taken)
    · intro other sink r n bound taken
      rw [bindSink, Bindings.find?_bind] at taken
      split_ifs at taken
      · cases taken
        exact (apart.bytes bound).ne
      · exact apart.disjoint bound taken
  | recorder r =>
    have old {sink : String} {n : Nat}
        (taken : (s.bindSink name (.recorder r)).sinks.find? sink = some (.buffer n)) :
        s.sinks.find? sink = some (.buffer n) := by
      rw [bindSink, Bindings.find?_bind] at taken
      split_ifs at taken
      · cases taken
      · exact taken
    exact ⟨apart.bytes, fun taken => apart.sinks (old taken),
      fun bound taken => apart.disjoint bound (old taken)⟩

theorem keeps_openSink (name : String) : Keeps s (s.openSink name) := by
  unfold openSink
  split_ifs with bound
  · exact ⟨apart, fun _ => rfl⟩
  · refine ⟨apart_bindSink apart _ _, fun other => ?_⟩
    rw [sink_bindSink apart]
    split_ifs with same
    · rw [same, sink, Option.not_isSome_iff_eq_none.1 bound]
    · rfl

/-- A step that does not name a sink leaves all sinks as they are. -/
theorem keeps_of_step {step : Step} {e : Effect} (taken : s.step step = .ok e)
    (off : step.sink? = none) : Keeps s e.store := by
  cases step with
  | encode | put | clear => cases off
  | array | debug =>
    cases taken
    exact keeps_of_eq apart rfl rfl rfl
  | arrayGet | bytesGet | inspect | payloadOf =>
    obtain ⟨_, -, taken⟩ := bind_eq_ok.1 taken
    cases taken
    exact keeps_of_eq apart rfl rfl rfl
  | fromBytes | make | load | decode | equals | parseHead =>
    obtain ⟨_, -, taken⟩ := bind_eq_ok.1 taken
    obtain ⟨_, -, taken⟩ := bind_eq_ok.1 taken
    cases taken
    exact keeps_of_eq apart rfl rfl rfl
  | arraySet =>
    obtain ⟨n, -, taken⟩ := bind_eq_ok.1 taken
    dsimp only at taken
    split_ifs at taken
    cases taken
    exact keeps_of_eq apart rfl rfl rfl
  | bytes =>
    cases taken
    exact keeps_allocate apart _ _
  | intoPayload | encodePing =>
    obtain ⟨_, -, taken⟩ := bind_eq_ok.1 taken
    cases taken
    exact keeps_allocate apart _ _
  | bytesView =>
    obtain ⟨r, found, taken⟩ := bind_eq_ok.1 taken
    cases taken
    exact keeps_bindBytes apart (find?_of_attempt found) (by rfl) _
  | bytesSet =>
    obtain ⟨r, found, taken⟩ := bind_eq_ok.1 taken
    cases taken
    exact keeps_setBuffer apart (find?_of_attempt found) _
  | writeHead =>
    obtain ⟨r, found, taken⟩ := bind_eq_ok.1 taken
    obtain ⟨_, written, taken⟩ := bind_eq_ok.1 taken
    obtain ⟨_, -, rfl⟩ := writeHead_eq_ok_iff.1 written
    cases taken
    exact keeps_setBuffer apart (find?_of_attempt found) _
  | contents | size =>
    cases taken
    exact keeps_openSink apart _
  | take sink bytes =>
    cases taken
    have opened := keeps_openSink apart sink
    exact opened.trans (keeps_allocate opened.apart _ _)

end Keeps

/-! ## Steps on a sink -/

section Steps

variable {s : Store} {name : String}

theorem step_encode {ping : String} {r : PingRef} (found : s.pings.find? ping = some r) :
    let state := (s.sink name).put ((s.ping r).toFrame s.log).1
    s.step (.encode ping name) =
      .ok ⟨.sink state, s.bindSink name state, ((s.ping r).toFrame s.log).2⟩ := by
  rw [step, lookupPing, lookup, found]
  rfl

theorem step_put {bytes : String} {r : ByteRef} (found : s.bytes.find? bytes = some r) :
    let state := (s.sink name).put (s.view r).toBytes
    s.step (.put name bytes) = .ok { reply := .sink state, store := s.bindSink name state } := by
  rw [step, lookup, found]
  rfl

theorem collect_encode {ping : String} {r : PingRef} {pieces : List Bytes}
    (found : s.pings.find? ping = some r) :
    s.collect name pieces (.encode ping name) = pieces ++ [((s.ping r).toFrame s.log).1] := by
  simp [collect, Step.sink?, piece?, found]

theorem collect_put {bytes : String} {r : ByteRef} {pieces : List Bytes}
    (found : s.bytes.find? bytes = some r) :
    s.collect name pieces (.put name bytes) = pieces ++ [(s.view r).toBytes] := by
  simp [collect, Step.sink?, piece?, found]

theorem collect_clear {pieces : List Bytes} : s.collect name pieces (.clear name) = [] :=
  if_pos rfl

/-- All that a step which names a sink can do. -/
theorem advance_of_sink? {step : Step} (on : step.sink? = some name) :
    (∃ failure, s.advance step = (s, ⟨.error failure, []⟩) ∧
      ∀ pieces, s.collect name pieces step = pieces) ∨
    ∃ state events, s.advance step = (s.bindSink name state, ⟨.ok (.sink state), events⟩) ∧
      ∀ pieces, s.sink name = sinkOf name pieces →
        state = sinkOf name (s.collect name pieces step) := by
  cases step with
  | encode ping sink =>
    obtain rfl := Option.some.inj on
    cases found : s.pings.find? ping with
    | none =>
      left
      refine ⟨.unbound ping, advance_of_error (b := { failure := .unbound ping, store := s }) ?_, fun pieces => ?_⟩
      · rw [step, lookupPing, lookup, found]
        rfl
      · simp [collect, on, piece?, found]
    | some r =>
      right
      refine ⟨_, _, advance_of_step (step_encode found), fun pieces holds => ?_⟩
      rw [holds, put_sinkOf, collect_encode found]
  | put sink bytes =>
    obtain rfl := Option.some.inj on
    cases found : s.bytes.find? bytes with
    | none =>
      left
      refine ⟨.unbound bytes, advance_of_error (b := { failure := .unbound bytes, store := s }) ?_, fun pieces => ?_⟩
      · rw [step, lookup, found]
        rfl
      · simp [collect, on, piece?, found]
    | some r =>
      right
      refine ⟨_, _, advance_of_step (step_put found), fun pieces holds => ?_⟩
      rw [holds, put_sinkOf, collect_put found]
  | clear sink =>
    obtain rfl := Option.some.inj on
    right
    refine ⟨(s.sink sink).clear, [], rfl, fun pieces holds => ?_⟩
    rw [holds, clear_sinkOf, collect_clear]
  | _ => cases on

variable (apart : s.Apart)

include apart

/-- A step that is taken on a sink answers with the sink as it left it. -/
theorem reply_of_sink? {step : Step} (on : step.sink? = some name) {reply : Reply}
    (taken : (s.advance step).2.result = .ok reply) :
    reply = .sink ((s.advance step).1.sink name) := by
  obtain ⟨_, failed, -⟩ | ⟨_, _, done, -⟩ := advance_of_sink? on
  · rw [failed] at taken
    cases taken
  · rw [done] at taken ⊢
    rw [sink_bindSink apart, if_pos rfl]
    exact (Except.ok.inj taken).symm

theorem keeps_or_bindSink (step : Step) :
    Keeps s (s.advance step).1 ∨
      ∃ sink state, step.sink? = some sink ∧ (s.advance step).1 = s.bindSink sink state := by
  cases named : step.sink? with
  | none =>
    left
    cases taken : s.step step with
    | ok e =>
      rw [advance_of_step taken]
      exact keeps_of_step apart taken named
    | error b =>
      rw [advance_of_error taken]
      exact ⟨apart, fun _ => rfl⟩
  | some sink =>
    obtain ⟨_, failed, -⟩ | ⟨state, _, done, -⟩ := advance_of_sink? named
    · left
      rw [failed]
      exact ⟨apart, fun _ => rfl⟩
    · right
      rw [done]
      exact ⟨sink, state, rfl, rfl⟩

theorem apart_advance (step : Step) : (s.advance step).1.Apart := by
  obtain keeps | ⟨sink, state, -, done⟩ := keeps_or_bindSink apart step
  · exact keeps.apart
  · rw [done]
    exact apart_bindSink apart sink state

/-- A step on another sink, or on none, leaves a sink as it is. -/
theorem sink_advance_of_ne {step : Step} (off : step.sink? ≠ some name) :
    (s.advance step).1.sink name = s.sink name := by
  obtain keeps | ⟨other, state, on, done⟩ := keeps_or_bindSink apart step
  · exact keeps.sink name
  · have ne : name ≠ other := fun same => off (on.trans (congrArg some same.symm))
    rw [done, sink_bindSink apart, if_neg ne]

/-- After a step a sink holds what it held, and the piece that the step handed to it. -/
theorem sink_advance {pieces : List Bytes} (holds : s.sink name = sinkOf name pieces)
    (step : Step) :
    (s.advance step).1.sink name = sinkOf name (s.collect name pieces step) := by
  by_cases on : step.sink? = some name
  · obtain ⟨_, failed, same⟩ | ⟨_, _, done, state⟩ := advance_of_sink? on
    · rw [failed, same, holds]
    · rw [done, sink_bindSink apart, if_pos rfl, state pieces holds]
  · have same : s.collect name pieces step = pieces := if_neg on
    rw [sink_advance_of_ne apart on, same, holds]

end Steps

/-! ## Whole runs -/

theorem apart_empty : ({} : Store).Apart := ⟨nofun, nofun, nofun⟩

theorem apart_after (steps : List Step) : (({} : Store).after steps).Apart := by
  refine after_induction (fun {s step e} taken apart => ?_) apart_empty steps
  have next := apart_advance apart step
  rwa [advance_of_step taken] at next

theorem sink_after_of_ne {s : Store} (apart : s.Apart) {name : String} {steps : List Step}
    (off : ∀ step ∈ steps, step.sink? ≠ some name) : (s.after steps).sink name = s.sink name := by
  induction steps generalizing s with
  | nil => rfl
  | cons step rest ih =>
    rw [after_cons, ih (apart_advance apart step) fun later inRest =>
      off later (List.mem_cons_of_mem _ inRest)]
    exact sink_advance_of_ne apart (off step List.mem_cons_self)

theorem sink_after_of_holds {s : Store} (apart : s.Apart) {name : String} {pieces : List Bytes}
    (holds : s.sink name = sinkOf name pieces) (steps : List Step) :
    (s.after steps).sink name = sinkOf name (collectAll name s pieces steps) := by
  induction steps generalizing s pieces with
  | nil => exact holds
  | cons step rest ih => exact ih (apart_advance apart step) (sink_advance apart holds step)

/-- That a sink holds some pieces, and that the steps which show it show them. -/
structure Holds (s : Store) (name : String) (pieces : List Bytes) : Prop where
  sink : s.sink name = sinkOf name pieces
  contents : (s.advance (.contents name)).2.result = .ok (.bytes pieces.flatten)
  take (bytes : String) : (s.advance (.take name bytes)).2.result = .ok (.bytes pieces.flatten)
  size : (s.advance (.size name)).2.result = .ok (.count pieces.flatten.length)

theorem holds_of_sink {s : Store} {name : String} {pieces : List Bytes}
    (sink : s.sink name = sinkOf name pieces) : s.Holds name pieces where
  sink := sink
  contents := by
    show Except.ok (Reply.bytes (s.sink name).toBytes) = _
    rw [sink, toBytes_sinkOf]
  take _ := by
    show Except.ok (Reply.bytes (s.sink name).toBytes) = _
    rw [sink, toBytes_sinkOf]
  size := by
    show Except.ok (Reply.count (s.sink name).toBytes.length) = _
    rw [sink, toBytes_sinkOf]

/-- After a run a sink holds the pieces that it was handed since it was last cleared, each as it was
when it was handed over.  One more step on it adds the frame of a PING, whole, or the bytes of a
byte array, or clears it, and shows it as it then is; whatever else is done leaves it as it is. -/
theorem sink_after (steps : List Step) (name : String) :
    let s := ({} : Store).after steps
    let pieces := collectAll name {} [] steps
    s.Holds name pieces ∧
    (∀ ping r, s.pings.find? ping = some r →
      let frame := ((s.ping r).toFrame s.log).1
      frame.length = 17 ∧
      (∀ bytes, (s.advance (.encodePing ping bytes)).2.result = .ok (.bytes frame)) ∧
      (s.advance (.encode ping name)).1.Holds name (pieces ++ [frame])) ∧
    (∀ bytes r, s.bytes.find? bytes = some r →
      let content := (s.view r).toBytes
      (s.advance (.bytesGet bytes)).2.result = .ok (.bytes content) ∧
      (s.advance (.put name bytes)).1.Holds name (pieces ++ [content])) ∧
    (s.advance (.clear name)).1.Holds name [] ∧
    (∀ step reply, step.sink? = some name → (s.advance step).2.result = .ok reply →
      reply = .sink ((s.advance step).1.sink name)) ∧
    ∀ later, (∀ step ∈ later, step.sink? ≠ some name) → (s.after later).Holds name pieces := by
  intro s pieces
  have apart : s.Apart := apart_after steps
  have holds : s.sink name = sinkOf name pieces :=
    sink_after_of_holds apart_empty (sinkOf_nil name).symm steps
  have next (step : Step) : (s.advance step).1.Holds name (s.collect name pieces step) :=
    holds_of_sink (sink_advance apart holds step)
  refine ⟨holds_of_sink holds, fun ping r found => ⟨Ping.length_frame _, fun bytes => ?_, ?_⟩,
    fun bytes r found => ⟨?_, ?_⟩, ?_, fun _ _ on => reply_of_sink? apart on, fun later off => ?_⟩
  · rw [advance, step, lookupPing, lookup, found]
    rfl
  · rw [← collect_encode found]
    exact next _
  · rw [advance, step, lookup, found]
    rfl
  · rw [← collect_put found]
    exact next _
  · rw [← collect_clear]
    exact next _
  · exact holds_of_sink ((sink_after_of_ne apart off).trans holds)

/-- A sink that is handed one stretch of a byte array twice, with a store to it in between. -/
theorem sink_after_twice :
    let zeros : Entries := Vector.replicate payloadSize (Number.ofNat 0)
    let s := ({} : Store).after
      [.bytes "source" [1, 2, 3], .bytesView "view" "source" 1 none, .put "out" "view",
        .bytesSet "source" 1 (Number.ofNat 9), .put "out" "view", .make true "pong" (.entries zeros)]
    let frame : Bytes := [0, 0, 8, 6, 1, 0, 0, 0, 0, 0, 0, 0, 0, 0, 0, 0, 0]
    s.Holds "out" [[2, 3], [9, 3]] ∧
    (s.advance (.encode "pong" "out")).1.Holds "out" [[2, 3], [9, 3], frame] ∧
    (s.advance (.clear "out")).1.Holds "out" [] ∧
    (s.after [.bytesSet "source" 2 (Number.ofNat 7), .clear "other"]).Holds "out" [[2, 3], [9, 3]] := by
  intro zeros s frame
  obtain ⟨holds, encoded, -, cleared, -, later⟩ := sink_after
    [.bytes "source" [1, 2, 3], .bytesView "view" "source" 1 none, .put "out" "view",
      .bytesSet "source" 1 (Number.ofNat 9), .put "out" "view", .make true "pong" (.entries zeros)] "out"
  have written : ((s.ping ⟨true, 0⟩).toFrame s.log).1 = frame := Ping.frame_eq ⟨true, zeros⟩
  refine ⟨holds, written ▸ (encoded "pong" ⟨true, 0⟩ rfl).2.2, cleared, later _ ?_⟩
  simp [Step.sink?]

end Store

end Session

end PingCodec
