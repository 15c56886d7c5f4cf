import PingCodec.Proofs.Storing

/-!
# Copies belong to their owners

A copy lies in storage of its own, a buffer or a number array that nothing referred to before
(`new_copy`, `new_entries`), and nothing is linked with it (`linked_copy`).  So it changes only by a
store to itself, and a store to it changes nothing else (`copies_isolated`).
-/

namespace PingCodec.Session

namespace Store

/-! ## New byte arrays -/

theorem toBytes_within (bs : Bytes) : (View.within bs 0 bs.length).toBytes = bs := by
  simp [View.within, View.toBytes]

theorem bytesGet_allocate_self (s : Store) (x : String) (content : Bytes) :
    ((s.allocate x content).advance (.bytesGet x)).2 = ⟨.ok (.bytes content), []⟩ := by
  rw [bytesGet_of_find? (Bindings.find?_bind_self _ _ _), view, allocate,
    List.getD_eq_getElem?_getD, List.getElem?_concat_length]
  show (⟨.ok (.bytes (View.within content 0 content.length).toBytes), []⟩ : Answer) = _
  rw [toBytes_within]

/-- A byte array shows what it showed when there is a new one. -/
theorem bytesGet_allocate_of_ne {s t : Store} (apart : s.Apart) (bytes : t.bytes = s.bytes)
    (buffers : s.buffers <+: t.buffers) {x y : String} {r : ByteRef}
    (found : s.bytes.find? x = some r) (ne : x ≠ y) (content : Bytes) :
    ((t.allocate y content).advance (.bytesGet x)).2 = (s.advance (.bytesGet x)).2 := by
  have still : (t.allocate y content).bytes.find? x = some r := by
    rw [allocate, Bindings.find?_bind_of_ne _ _ ne, bytes, found]
  have same : (t.allocate y content).view r = s.view r := by
    obtain ⟨more, eq⟩ := buffers
    apply view_congr
    rw [allocate, ← eq, List.append_assoc, List.getElem?_append_left (apart.bytes found)]
  rw [bytesGet_of_find? still, bytesGet_of_find? found, same]

/-! ## Copies in a session -/

/-- That a byte array or a sink lies in a buffer. -/
def UsesBuffer (s : Store) (n : Nat) : Prop :=
  (∃ x r, s.bytes.find? x = some r ∧ r.buffer = n) ∨ ∃ sink, s.sinks.find? sink = some (.buffer n)

/-- That a name or a PING refers to a number array. -/
def UsesArray (s : Store) (n : Nat) : Prop :=
  (∃ x, s.arrays.find? x = some n) ∨ ∃ ping r, s.pings.find? ping = some r ∧ r.array = n

/-- That a byte array shows some bytes, and goes on to show them while nothing is stored to it. -/
def KeepsBytes (s : Store) (x : String) (content : Bytes) : Prop :=
  ∀ later, (∀ step ∈ later, step.Stores ∧ step.writes? ≠ some x) →
    ((s.after later).advance (.bytesGet x)).2.result = .ok (.bytes content)

/-- That a number array shows some numbers, and goes on to show them while nothing is stored to it. -/
def KeepsEntries (s : Store) (x : String) (a : Entries) : Prop :=
  ∀ later, (∀ step ∈ later, step.Stores ∧ step.sets? ≠ some x) →
    ((s.after later).advance (.arrayGet x)).2.result = .ok (.entries a)

theorem numberArray_bindArray_self (s : Store) (x : String) (a : NumberArray) :
    (s.bindArray x a).numberArray s.numbers.length = a := by
  rw [numberArray, bindArray, List.getD_eq_getElem?_getD, List.getElem?_concat_length,
    Option.getD_some]

theorem arrayGet_bindArray_self (s : Store) (x : String) (a : NumberArray) :
    ((s.bindArray x a).advance (.arrayGet x)).2 = ⟨.ok (.entries a.entries), []⟩ := by
  have bound : (s.bindArray x a).arrays.find? x = some s.numbers.length :=
    Bindings.find?_bind_self _ _ _
  rw [advance, step, lookup_eq_ok_iff.2 bound]
  show (⟨.ok (.entries ((s.bindArray x a).numberArray s.numbers.length).entries), []⟩ : Answer) = _
  rw [numberArray_bindArray_self]

/-- Nothing refers to a number array that is not there yet. -/
theorem not_usesArray_length (before : List Step) :
    ¬ (({} : Store).after before).UsesArray (({} : Store).after before).numbers.length := by
  rintro (⟨x, hx⟩ | ⟨ping, r, hr, same⟩)
  · exact absurd ((soleNames_after before).bound hx) (Nat.lt_irrefl _)
  · obtain ⟨a, frozen⟩ := sealed_after before ping r hr
    have older := (List.getElem?_eq_some_iff.1 frozen).1
    exact absurd (same ▸ older) (Nat.lt_irrefl _)

theorem after_concat (s : Store) (steps : List Step) (step : Step) :
    s.after (steps ++ [step]) = ((s.after steps).advance step).1 := by
  induction steps generalizing s with
  | nil => rfl
  | cons first rest ih => rw [List.cons_append, after_cons, ih, after_cons]

theorem linked_concat (steps : List Step) (step : Step) :
    Linked (steps ++ [step]) = (({} : Store).after steps).relink (Linked steps) step := by
  have run (s : Store) (linked : String → String → Prop) :
      relinkAll s linked (steps ++ [step]) = (s.after steps).relink (relinkAll s linked steps) step := by
    induction steps generalizing s linked with
    | nil => rfl
    | cons first rest ih => rw [List.cons_append, relinkAll, ih, relinkAll, after_cons]
  exact run {} Eq

theorem keepsBytes_of_linked {before : List Step} {x : String} {content : Bytes}
    (shown : ((({} : Store).after before).advance (.bytesGet x)).2.result = .ok (.bytes content))
    (alone : ∀ y, Linked before y x → y = x) : (({} : Store).after before).KeepsBytes x content := by
  intro later spared
  have same := @bytesGet_after before later (fun step inLater => (spared step inLater).1) x
    fun step inLater y writes linked => (spared step inLater).2 (alone y linked ▸ writes)
  rw [same, shown]

theorem keepsEntries_of_shown {before : List Step} {x : String} {a : Entries}
    (shown : ((({} : Store).after before).advance (.arrayGet x)).2.result = .ok (.entries a)) :
    (({} : Store).after before).KeepsEntries x a := by
  intro later spared
  have same := @arrayGet_after before later (fun step inLater => (spared step inLater).1) x
    fun step inLater => (spared step inLater).2
  rw [same, shown]

end Store

/-! ## Copies -/

/-- What a session hands out copies of as byte arrays. -/
inductive Copied where
  | payload (ping : String)
  | frame (ping : String)
  | contents (sink : String)

namespace Copied

/-- The step that puts a copy under a name. -/
def step (bytes : String) : Copied → Step
  | payload ping => .intoPayload ping bytes
  | frame ping => .encodePing ping bytes
  | contents sink => .take sink bytes

/-- The bytes of a copy that is made now. -/
def content? (s : Store) : Copied → Option Bytes
  | payload ping => (s.pings.find? ping).map fun r => (s.ping r).payloadBytes
  | frame ping => (s.pings.find? ping).map fun r => (s.ping r).frame
  | contents sink => some (s.sink sink).toBytes

/-- The session as it is when the copy is put in a buffer; a sink that is copied is there by then. -/
def source (s : Store) : Copied → Store
  | payload _ | frame _ => s
  | contents sink => s.openSink sink

variable {s : Store} {c : Copied} {x y : String} {content : Bytes}

theorem step_of_content? (found : c.content? s = some content) (x : String) :
    ∃ events, s.step (c.step x) =
      .ok ⟨.bytes content, (c.source s).allocate x content, events⟩ := by
  cases c with
  | payload ping =>
    obtain ⟨r, bound, rfl⟩ := Option.map_eq_some_iff.1 found
    rw [step, Store.step, Store.lookupPing_eq_ok bound]
    exact ⟨_, rfl⟩
  | frame ping =>
    obtain ⟨r, bound, rfl⟩ := Option.map_eq_some_iff.1 found
    rw [step, Store.step, Store.lookupPing_eq_ok bound]
    exact ⟨_, rfl⟩
  | contents sink =>
    obtain rfl := Option.some.inj found
    exact ⟨_, rfl⟩

theorem result_of_content? (found : c.content? s = some content) (x : String) :
    (s.advance (c.step x)).2.result = .ok (.bytes content) := by
  obtain ⟨events, taken⟩ := step_of_content? found x
  rw [Store.advance_of_step taken]

theorem store_of_content? (found : c.content? s = some content) (x : String) :
    (s.advance (c.step x)).1 = (c.source s).allocate x content := by
  obtain ⟨events, taken⟩ := step_of_content? found x
  rw [Store.advance_of_step taken]

/-- A copy that is handed out is one of the bytes as they are. -/
theorem content?_of_result {reply : Reply} (copied : (s.advance (c.step x)).2.result = .ok reply) :
    ∃ content, c.content? s = some content ∧ reply = .bytes content := by
  have given : ∃ content, c.content? s = some content := by
    cases c with
    | payload ping | frame ping =>
      cases bound : s.pings.find? ping with
      | some r => exact ⟨_, by rw [content?, bound]; rfl⟩
      | none =>
        rw [step, Store.advance, Store.step, Store.lookupPing, lookup, bound] at copied
        cases copied
    | contents sink => exact ⟨_, rfl⟩
  obtain ⟨content, found⟩ := given
  rw [result_of_content? found] at copied
  exact ⟨content, found, (Except.ok.inj copied).symm⟩

theorem keeps_source (apart : s.Apart) (c : Copied) : Store.Keeps s (c.source s) := by
  cases c with
  | payload | frame => exact ⟨apart, fun _ => rfl⟩
  | contents sink => exact Store.keeps_openSink apart sink

theorem bytes_source (s : Store) (c : Copied) : (c.source s).bytes = s.bytes := by
  cases c with
  | payload | frame => rfl
  | contents sink => exact Store.bytes_openSink s sink

theorem buffers_source (s : Store) (c : Copied) : s.buffers <+: (c.source s).buffers := by
  cases c with
  | payload | frame => exact List.prefix_rfl
  | contents sink => exact Store.buffers_openSink s sink

theorem pings_source (s : Store) (c : Copied) : (c.source s).pings = s.pings := by
  cases c with
  | payload | frame => rfl
  | contents sink => exact Store.pings_openSink s sink

theorem numbers_source (s : Store) (c : Copied) : (c.source s).numbers = s.numbers := by
  cases c with
  | payload | frame => rfl
  | contents sink => exact Store.numbers_openSink s sink

/-- A copy takes nothing from what it is a copy of. -/
theorem content?_allocate (apart : s.Apart) (c : Copied) (x : String) (content : Bytes) :
    c.content? ((c.source s).allocate x content) = c.content? s := by
  have kept := (keeps_source apart c).trans
    (Store.keeps_allocate (keeps_source apart c).apart x content)
  cases c with
  | payload | frame => rfl
  | contents sink =>
    show some (Store.sink _ sink).toBytes = some (s.sink sink).toBytes
    rw [kept.sink]

section Session

variable {before : List Step} (found : c.content? (({} : Store).after before) = some content)

include found

/-- A copy is linked with nothing, and all else is linked as before. -/
theorem linked_copy (x z w : String) :
    Store.Linked (before ++ [c.step x]) z w ↔
      (z = x ↔ w = x) ∧ (z ≠ x → Store.Linked before z w) := by
  obtain ⟨events, taken⟩ := step_of_content? found x
  have allocates : (c.step x).allocates? = some x := by cases c <;> rfl
  rw [Store.linked_concat, Store.relink, taken]
  exact Store.relink_of_allocates allocates _ _ _

theorem keepsBytes_copy (x : String) :
    ((({} : Store).after before).advance (c.step x)).1.KeepsBytes x content := by
  rw [← Store.after_concat]
  apply Store.keepsBytes_of_linked
  · rw [Store.after_concat, store_of_content? found, Store.bytesGet_allocate_self]
  · intro y linked
    exact ((linked_copy found x y x).1 linked).1.2 rfl

/-- A copy lies in a buffer that nothing lay in before, and that no sink lies in. -/
theorem new_copy (x : String) :
    let s := ({} : Store).after before
    let t := (s.advance (c.step x)).1
    ∃ r, t.bytes.find? x = some r ∧ ¬ s.UsesBuffer r.buffer ∧
      ∀ sink, t.sinks.find? sink ≠ some (.buffer r.buffer) := by
  intro s t
  have apart : s.Apart := Store.apart_after before
  have longer := (buffers_source s c).length_le
  have store : t = (c.source s).allocate x content := store_of_content? found x
  refine ⟨⟨(c.source s).buffers.length, 0, content.length⟩, ?_, ?_, fun sink taken => ?_⟩
  · rw [store]
    exact Bindings.find?_bind_self _ _ _
  · rintro (⟨y, r, hy, same⟩ | ⟨sink, taken⟩)
    · have older := apart.bytes hy
      have same : r.buffer = (c.source s).buffers.length := same
      omega
    · exact absurd (apart.sinks taken) (Nat.not_lt.2 longer)
  · rw [store] at taken
    exact absurd ((keeps_source apart c).apart.sinks taken) (Nat.lt_irrefl _)

/-- A second copy is made of the same bytes, and neither of the two changes with the other. -/
theorem copy_twice (x y : String) :
    let t := ((({} : Store).after before).advance (c.step x)).1
    (t.advance (c.step y)).2.result = .ok (.bytes content) ∧
      (t.advance (c.step y)).1.KeepsBytes y content ∧
      (x ≠ y → (t.advance (c.step y)).1.KeepsBytes x content) := by
  intro t
  have apart : (({} : Store).after before).Apart := Store.apart_after before
  have store : t = (c.source (({} : Store).after before)).allocate x content :=
    store_of_content? found x
  have session : t = ({} : Store).after (before ++ [c.step x]) := (Store.after_concat ..).symm
  have again : c.content? t = some content := by rw [store, content?_allocate apart, found]
  rw [session] at again
  refine ⟨?_, ?_, fun ne => ?_⟩
  · rw [session]
    exact result_of_content? again y
  · rw [session]
    exact keepsBytes_copy again y
  · rw [session, ← Store.after_concat]
    apply Store.keepsBytes_of_linked
    · have bound : t.bytes.find? x =
          some ⟨(c.source (({} : Store).after before)).buffers.length, 0, content.length⟩ := by
        rw [store]
        exact Bindings.find?_bind_self _ _ _
      rw [session] at bound
      rw [Store.after_concat, store_of_content? again,
        Store.bytesGet_allocate_of_ne (Store.apart_after _) (bytes_source _ c) (buffers_source _ c)
          bound ne, ← session, store, Store.bytesGet_allocate_self]
    · intro z linked
      obtain ⟨other, before'⟩ := (linked_copy again y z x).1 linked
      have fresh : z ≠ y := fun same => ne (other.1 same)
      exact ((linked_copy found x z x).1 (before' fresh)).1.2 rfl

end Session

end Copied

/-- The bytes of a byte array as numbers go to a number array that nothing referred to before. -/
theorem Store.new_entries {before : List Step} {array bytes : String} {reply : Reply}
    (copied : ((({} : Store).after before).advance (.fromBytes array bytes)).2.result = .ok reply) :
    let s := ({} : Store).after before
    let t := (s.advance (.fromBytes array bytes)).1
    ∃ a n, reply = .entries a ∧ t.KeepsEntries array a ∧ t.arrays.find? array = some n ∧
      (t.numberArray n).frozen = false ∧ ¬ s.UsesArray n ∧ t.pings = s.pings ∧
      t.buffers = s.buffers := by
  intro s t
  cases taken : s.step (.fromBytes array bytes) with
  | error b =>
    rw [advance_of_error taken] at copied
    cases copied
  | ok e =>
    obtain ⟨r, -, effect⟩ := bind_eq_ok.1 taken
    obtain ⟨p, -, effect⟩ := bind_eq_ok.1 effect
    cases effect
    have store : t = s.bindArray array ⟨p.entries, false⟩ :=
      congrArg Prod.fst (advance_of_step taken)
    rw [advance_of_step taken] at copied
    have keeps : t.KeepsEntries array p.entries := by
      show Store.KeepsEntries (s.advance _).1 array p.entries
      rw [← after_concat]
      apply keepsEntries_of_shown
      rw [after_concat]
      show (t.advance (.arrayGet array)).2.result = _
      rw [store, arrayGet_bindArray_self]
    refine ⟨p.entries, s.numbers.length, (Except.ok.inj copied).symm, keeps, ?_, ?_,
      not_usesArray_length before, ?_, ?_⟩
    · rw [store]
      exact Bindings.find?_bind_self _ _ _
    · rw [store, numberArray_bindArray_self]
    · rw [store]
      rfl
    · rw [store]
      rfl

/-- What is handed out as a copy of a PING, of its frame or of a sink lies in a buffer of its own, and
what is made of the bytes of a byte array in a number array of its own: nothing referred to it before,
and it is changed by nobody but its owner.  A second copy is equal to the first, and neither changes
with the other.  However often bytes, headers and numbers are stored, a byte array changes only by a
store to one that it is linked with by views, which shares its buffer, a number array only by a store to
itself, and PINGs and sinks do not change at all. -/
theorem copies_isolated (before : List Step) :
    let s := ({} : Store).after before
    (∀ (c : Copied) (x : String) (reply : Reply), (s.advance (c.step x)).2.result = .ok reply ↔
      ∃ content, c.content? s = some content ∧ reply = .bytes content) ∧
    (∀ (c : Copied) (content : Bytes), c.content? s = some content → ∀ x,
      let t := (s.advance (c.step x)).1
      t.KeepsBytes x content ∧
      (∃ r, t.bytes.find? x = some r ∧ ¬ s.UsesBuffer r.buffer ∧
        ∀ sink, t.sinks.find? sink ≠ some (.buffer r.buffer)) ∧
      t.pings = s.pings ∧ t.numbers = s.numbers ∧
      (∀ z, Store.Linked (before ++ [c.step x]) z x ↔ z = x) ∧
      ∀ y, (t.advance (c.step y)).2.result = .ok (.bytes content) ∧
        (t.advance (c.step y)).1.KeepsBytes y content ∧
        (x ≠ y → (t.advance (c.step y)).1.KeepsBytes x content)) ∧
    (∀ array bytes reply, (s.advance (.fromBytes array bytes)).2.result = .ok reply →
      let t := (s.advance (.fromBytes array bytes)).1
      ∃ a n, reply = .entries a ∧ t.KeepsEntries array a ∧ t.arrays.find? array = some n ∧
        (t.numberArray n).frozen = false ∧ ¬ s.UsesArray n ∧ t.pings = s.pings ∧
        t.buffers = s.buffers) ∧
    (∀ x y r q, s.bytes.find? x = some r → s.bytes.find? y = some q →
      (Store.Linked before x y ↔ r.buffer = q.buffer)) ∧
    ∀ later, (∀ step ∈ later, step.Stores) →
      let t := s.after later
      (∀ x, (∀ step ∈ later, ∀ y, step.writes? = some y → ¬ Store.Linked before y x) →
        (t.advance (.bytesGet x)).2 = (s.advance (.bytesGet x)).2) ∧
      (∀ x, (∀ step ∈ later, step.sets? ≠ some x) →
        (t.advance (.arrayGet x)).2 = (s.advance (.arrayGet x)).2) ∧
      (∀ x, (t.advance (.inspect x)).2 = (s.advance (.inspect x)).2) ∧
      ∀ sink, (t.advance (.contents sink)).2 = (s.advance (.contents sink)).2 := by
  intro s
  refine ⟨fun c x reply => ⟨Copied.content?_of_result, ?_⟩, fun c content found x => ?_,
    fun _ _ _ copied => Store.new_entries copied, fun _ _ _ _ hx hy => Store.linked_iff hx hy,
    fun later stores => ⟨fun _ => Store.bytesGet_after stores, fun _ => Store.arrayGet_after stores,
      Store.inspect_after stores, Store.contents_after stores⟩⟩
  · rintro ⟨content, found, rfl⟩
    exact Copied.result_of_content? found x
  · have store := Copied.store_of_content? found x
    refine ⟨Copied.keepsBytes_copy found x, Copied.new_copy found x, ?_, ?_, fun z => ?_,
      Copied.copy_twice found x⟩
    · rw [store]
      exact Copied.pings_source s c
    · rw [store]
      exact Copied.numbers_source s c
    · rw [Copied.linked_copy found]
      exact ⟨fun linked => linked.1.2 rfl, fun same => ⟨⟨fun _ => rfl, fun _ => same⟩, absurd same⟩⟩

/-- Two copies of the frame of a PING, with a store to the second one. -/
theorem copies_isolated_frames :
    let zeros : Entries := Vector.replicate payloadSize (Number.ofNat 0)
    let s := ({} : Store).after [.make true "pong" (.entries zeros)]
    let t := (s.advance (.encodePing "pong" "first")).1
    let u := (t.advance (.encodePing "pong" "second")).1
    let frame : Bytes := [0, 0, 8, 6, 1, 0, 0, 0, 0, 0, 0, 0, 0, 0, 0, 0, 0]
    t.pings = s.pings ∧ u.KeepsBytes "first" frame ∧ u.KeepsBytes "second" frame ∧
    ((u.after [.bytesSet "second" 0 (Number.ofNat 7)]).advance (.bytesGet "first")).2.result =
      .ok (.bytes frame) := by
  intro zeros s t u frame
  obtain ⟨-, copied, -⟩ := copies_isolated [.make true "pong" (.entries zeros)]
  have content : (Copied.frame "pong").content? s = some frame :=
    congrArg some (Ping.frame_eq ⟨true, zeros⟩)
  obtain ⟨-, -, pings, -, -, second⟩ := copied (.frame "pong") frame content "first"
  obtain ⟨-, kept, first⟩ := second "second"
  have keeps := first (by decide)
  refine ⟨pings, keeps, kept, keeps _ ?_⟩
  simp [Step.Stores, Step.writes?]

end PingCodec.Session
