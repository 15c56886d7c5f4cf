import PingCodec.Proofs.Sharing

/-!
# Storing to arrays

A store to an array changes the buffer or the number array that the name stands for and nothing else
(`step_stores`).  What a byte array shows therefore changes only by a store to one that it is linked with
(`bytesGet_after`), and what a number array shows only by a store to itself (`arrayGet_after`).
-/

namespace PingCodec.Session

/-! ## Storing -/

/-- The byte array that a step stores to. -/
def Step.writes? : Step → Option String
  | .bytesSet name _ _ | .writeHead name _ _ _ => some name
  | _ => none

/-- The number array that a step stores to. -/
def Step.sets? : Step → Option String
  | .arraySet name _ _ => some name
  | _ => none

/-- That a step stores to an array that is there, and does nothing else. -/
def Step.Stores (step : Step) : Prop := step.writes?.isSome ∨ step.sets?.isSome

namespace Store

/-- All that storing does. -/
theorem step_stores {s : Store} {step : Step} (stores : step.Stores) {e : Effect}
    (taken : s.step step = .ok e) :
    (∃ y r content, step.writes? = some y ∧ s.bytes.find? y = some r ∧
      e.store = s.setBuffer r.buffer content) ∨
    ∃ y n a, step.sets? = some y ∧ s.arrays.find? y = some n ∧
      e.store = s.setArray n ⟨a, false⟩ := by
  cases step with
  | bytesSet name =>
    obtain ⟨r, found, taken⟩ := bind_eq_ok.1 taken
    cases taken
    exact .inl ⟨name, r, _, rfl, find?_of_attempt found, rfl⟩
  | writeHead name =>
    obtain ⟨r, found, taken⟩ := bind_eq_ok.1 taken
    obtain ⟨_, written, taken⟩ := bind_eq_ok.1 taken
    obtain ⟨_, -, rfl⟩ := writeHead_eq_ok_iff.1 written
    cases taken
    exact .inl ⟨name, r, _, rfl, find?_of_attempt found, rfl⟩
  | arraySet name =>
    obtain ⟨n, found, taken⟩ := bind_eq_ok.1 taken
    dsimp only at taken
    split_ifs at taken
    cases taken
    exact .inr ⟨name, n, _, rfl, find?_of_attempt found, rfl⟩
  | _ => simp [Step.Stores, Step.writes?, Step.sets?] at stores

/-- That a store has the names of another one. -/
structure SameNames (s t : Store) : Prop where
  bytes : t.bytes = s.bytes
  arrays : t.arrays = s.arrays
  pings : t.pings = s.pings

theorem sameNames_advance (s : Store) {step : Step} (stores : step.Stores) :
    SameNames s (s.advance step).1 := by
  cases taken : s.step step with
  | error b =>
    rw [advance_of_error taken]
    exact ⟨rfl, rfl, rfl⟩
  | ok e =>
    rw [advance_of_step taken]
    obtain ⟨_, _, _, -, -, store⟩ | ⟨_, _, _, -, -, store⟩ := step_stores stores taken
    · rw [store]
      exact ⟨rfl, rfl, rfl⟩
    · rw [store]
      exact ⟨rfl, rfl, rfl⟩

theorem buffers_advance {s : Store} {step : Step} (stores : step.Stores) {n : Nat}
    (spared : ∀ y r, step.writes? = some y → s.bytes.find? y = some r → r.buffer ≠ n) :
    (s.advance step).1.buffers[n]? = s.buffers[n]? := by
  cases taken : s.step step with
  | error b => rw [advance_of_error taken]
  | ok e =>
    rw [advance_of_step taken]
    obtain ⟨y, r, content, writes, found, store⟩ | ⟨_, _, _, -, -, store⟩ := step_stores stores taken
    · rw [store]
      exact List.getElem?_set_ne (spared y r writes found)
    · rw [store]
      rfl

theorem numbers_advance {s : Store} {step : Step} (stores : step.Stores) {n : Nat}
    (spared : ∀ y, step.sets? = some y → s.arrays.find? y ≠ some n) :
    (s.advance step).1.numbers[n]? = s.numbers[n]? := by
  cases taken : s.step step with
  | error b => rw [advance_of_error taken]
  | ok e =>
    rw [advance_of_step taken]
    obtain ⟨_, _, _, -, -, store⟩ | ⟨y, m, a, sets, found, store⟩ := step_stores stores taken
    · rw [store]
      rfl
    · have other : m ≠ n := by
        rintro rfl
        exact spared y sets found
      rw [store]
      exact List.getElem?_set_ne other

section Stores

variable {s : Store} {later : List Step} (stores : ∀ step ∈ later, step.Stores)

include stores

theorem sameNames_after : SameNames s (s.after later) := by
  induction later generalizing s with
  | nil => exact ⟨rfl, rfl, rfl⟩
  | cons step rest ih =>
    obtain ⟨head, tail⟩ := List.forall_mem_cons.1 stores
    have first := sameNames_advance s head
    have next := @ih (s.advance step).1 tail
    rw [after_cons]
    exact ⟨next.bytes.trans first.bytes, next.arrays.trans first.arrays, next.pings.trans first.pings⟩

/-- A buffer that nothing is stored to stays as it is. -/
theorem buffers_after {n : Nat}
    (spared : ∀ step ∈ later, ∀ y r, step.writes? = some y → s.bytes.find? y = some r → r.buffer ≠ n) :
    (s.after later).buffers[n]? = s.buffers[n]? := by
  induction later generalizing s with
  | nil => rfl
  | cons step rest ih =>
    obtain ⟨head, tail⟩ := List.forall_mem_cons.1 stores
    obtain ⟨first, others⟩ := List.forall_mem_cons.1 spared
    rw [after_cons, ← buffers_advance head first]
    apply ih tail
    rwa [(sameNames_advance s head).bytes]

/-- A number array that nothing is stored to stays as it is. -/
theorem numbers_after {n : Nat}
    (spared : ∀ step ∈ later, ∀ y, step.sets? = some y → s.arrays.find? y ≠ some n) :
    (s.after later).numbers[n]? = s.numbers[n]? := by
  induction later generalizing s with
  | nil => rfl
  | cons step rest ih =>
    obtain ⟨head, tail⟩ := List.forall_mem_cons.1 stores
    obtain ⟨first, others⟩ := List.forall_mem_cons.1 spared
    rw [after_cons, ← numbers_advance head first]
    apply ih tail
    rwa [(sameNames_advance s head).arrays]

end Stores

/-! ## What is shown -/

section Shown

variable {s t : Store}

theorem view_congr {r : ByteRef} (content : t.buffers[r.buffer]? = s.buffers[r.buffer]?) :
    t.view r = s.view r := by
  rw [view, view, List.getD_eq_getElem?_getD, List.getD_eq_getElem?_getD, content]

theorem numberArray_congr {n : Nat} (content : t.numbers[n]? = s.numbers[n]?) :
    t.numberArray n = s.numberArray n := by
  rw [numberArray, numberArray, List.getD_eq_getElem?_getD, List.getD_eq_getElem?_getD, content]

theorem bytesGet_of_find? {x : String} {r : ByteRef} (found : s.bytes.find? x = some r) :
    (s.advance (.bytesGet x)).2 = ⟨.ok (.bytes (s.view r).toBytes), []⟩ := by
  rw [advance, step, lookup_eq_ok_iff.2 found]
  rfl

theorem bytesGet_congr {x : String} (names : SameNames s t)
    (content : ∀ r, s.bytes.find? x = some r → t.buffers[r.buffer]? = s.buffers[r.buffer]?) :
    (t.advance (.bytesGet x)).2 = (s.advance (.bytesGet x)).2 := by
  cases found : s.bytes.find? x with
  | none => rw [advance, advance, step, step, lookup, lookup, names.bytes, found]; rfl
  | some r =>
    rw [bytesGet_of_find? found, bytesGet_of_find? (names.bytes ▸ found), view_congr (content r found)]

theorem arrayGet_congr {x : String} (names : SameNames s t)
    (content : ∀ n, s.arrays.find? x = some n → t.numbers[n]? = s.numbers[n]?) :
    (t.advance (.arrayGet x)).2 = (s.advance (.arrayGet x)).2 := by
  rw [advance, advance, step, step, lookup, lookup, names.arrays]
  cases found : s.arrays.find? x with
  | none => rfl
  | some n =>
    show (⟨.ok (.entries (t.numberArray n).entries), []⟩ : Answer) =
      ⟨.ok (.entries (s.numberArray n).entries), []⟩
    rw [numberArray_congr (content n found)]

theorem inspect_congr {x : String} (names : SameNames s t)
    (content : ∀ r, s.pings.find? x = some r → t.numbers[r.array]? = s.numbers[r.array]?) :
    (t.advance (.inspect x)).2 = (s.advance (.inspect x)).2 := by
  rw [advance, advance, step, step, lookupPing, lookupPing, lookup, lookup, names.pings]
  cases found : s.pings.find? x with
  | none => rfl
  | some r =>
    show (⟨.ok (.ping (t.ping r)), []⟩ : Answer) = ⟨.ok (.ping (s.ping r)), []⟩
    rw [ping, ping, numberArray_congr (content r found)]

end Shown

theorem sink?_of_stores {step : Step} (stores : step.Stores) : step.sink? = none := by
  cases step with
  | encode | put | clear => simp [Step.Stores, Step.writes?, Step.sets?] at stores
  | _ => rfl

section Session

variable {before later : List Step} (stores : ∀ step ∈ later, step.Stores)

include stores

/-- What a byte array shows changes only by a store to one that is linked with it. -/
theorem bytesGet_after {x : String}
    (spared : ∀ step ∈ later, ∀ y, step.writes? = some y → ¬ Linked before y x) :
    let s := ({} : Store).after before
    ((s.after later).advance (.bytesGet x)).2 = (s.advance (.bytesGet x)).2 := by
  intro s
  apply bytesGet_congr (sameNames_after stores)
  intro r hx
  apply buffers_after stores
  intro step inLater y q writes hy same
  exact spared step inLater y writes ((linked_iff hy hx).2 same)

/-- What a number array shows changes only by a store to it. -/
theorem arrayGet_after {x : String} (spared : ∀ step ∈ later, step.sets? ≠ some x) :
    let s := ({} : Store).after before
    ((s.after later).advance (.arrayGet x)).2 = (s.advance (.arrayGet x)).2 := by
  intro s
  apply arrayGet_congr (sameNames_after stores)
  intro n hx
  by_cases frozen : ∃ a, s.Frozen n a
  · obtain ⟨a, frozen⟩ := frozen
    exact (frozen_after frozen later).trans frozen.symm
  · apply numbers_after stores
    intro step inLater y sets hy
    have other : x ≠ y := by
      rintro rfl
      exact spared step inLater sets
    exact frozen ((soleNames_after before).shared hx hy other)

theorem inspect_after (x : String) :
    let s := ({} : Store).after before
    ((s.after later).advance (.inspect x)).2 = (s.advance (.inspect x)).2 := by
  intro s
  apply inspect_congr (sameNames_after stores)
  intro r hx
  obtain ⟨a, frozen⟩ := sealed_after before x r hx
  exact (frozen_after frozen later).trans frozen.symm

theorem contents_after (sink : String) :
    let s := ({} : Store).after before
    ((s.after later).advance (.contents sink)).2 = (s.advance (.contents sink)).2 := by
  intro s
  have off : ∀ step ∈ later, step.sink? ≠ some sink := by
    intro step inLater
    rw [sink?_of_stores (stores step inLater)]
    nofun
  show (⟨.ok (.bytes ((s.after later).sink sink).toBytes), []⟩ : Answer) =
    ⟨.ok (.bytes (s.sink sink).toBytes), []⟩
  rw [sink_after_of_ne (apart_after before) off]

end Session

end Store

end PingCodec.Session
