import PingCodec.Proofs.Head
import PingCodec.Session.Run

/-!
# What a step can do

A step that fails breaks off before it has changed or said anything (`atomic_step`).  The others differ
in many ways, but to the number arrays and the PINGs each does one of four things (`touches_of_step`).
What holds of every run is proved from these cases alone.
-/

namespace PingCodec.Session

theorem bind_eq_ok {ε α β : Type} {x : Except ε α} {f : α → Except ε β} {b : β} :
    x >>= f = .ok b ↔ ∃ a, x = .ok a ∧ f a = .ok b := by
  cases x with
  | error e => exact ⟨nofun, nofun⟩
  | ok a =>
    constructor
    · intro h
      exact ⟨a, rfl, h⟩
    · rintro ⟨a', h, hf⟩
      rw [← Except.ok.inj h] at hf
      exact hf

theorem mapError_eq_ok_iff {ε ε' α : Type} {f : ε → ε'} {x : Except ε α} {a : α} :
    x.mapError f = .ok a ↔ x = .ok a := by
  cases x <;> simp [Except.mapError]

theorem lookup_eq_ok_iff {α : Type} {bindings : Bindings α} {name : String} {x : α} :
    lookup bindings name = .ok x ↔ bindings.find? name = some x := by
  unfold lookup
  cases bindings.find? name <;> simp

namespace Store

/-! ## Steps that fail -/

theorem attempt_eq_ok_iff {α : Type} {s : Store} {x : Except Failure α} {a : α} :
    s.attempt x = .ok a ↔ x = .ok a :=
  mapError_eq_ok_iff

theorem find?_of_attempt {α : Type} {s : Store} {bindings : Bindings α} {name : String} {x : α}
    (found : s.attempt (lookup bindings name) = .ok x) : bindings.find? name = some x :=
  lookup_eq_ok_iff.1 (attempt_eq_ok_iff.1 found)

/-- That something which breaks off leaves a store as it was and has said nothing. -/
def Atomic {α : Type} (s : Store) (x : Except Breakdown α) : Prop :=
  ∀ b, x = .error b → b.store = s ∧ b.events = []

section Atomic

variable {s : Store} {α β : Type}

theorem atomic_ok (a : α) : s.Atomic (.ok a) := nofun

theorem atomic_attempt (x : Except Failure α) : s.Atomic (s.attempt x) := by
  intro b failed
  cases x with
  | ok a => cases failed
  | error failure =>
    cases failed
    exact ⟨rfl, rfl⟩

theorem Atomic.bind {x : Except Breakdown α} {f : α → Except Breakdown β} (first : s.Atomic x)
    (next : ∀ a, s.Atomic (f a)) : s.Atomic (x >>= f) := by
  intro b failed
  cases x with
  | ok a => exact next a b failed
  | error _ =>
    cases failed
    exact first b rfl

/-- Storing a buffer where it came from changes nothing. -/
theorem setBuffer_self (s : Store) (r : ByteRef) : s.setBuffer r.buffer (s.view r).buffer = s := by
  have same : s.buffers.set r.buffer (s.buffers.getD r.buffer []) = s.buffers := by
    by_cases there : r.buffer < s.buffers.length
    · rw [← List.getElem_eq_getD [] (h := there), List.set_getElem_self]
    · exact List.set_eq_of_length_le (Nat.not_lt.1 there)
  show { s with buffers := s.buffers.set r.buffer (s.buffers.getD r.buffer []) } = s
  rw [same]

/-- A header that is refused has left its buffer alone. -/
theorem writeHead_of_put_error {r : ByteRef} {h : Head} {length offset : Number} {e : WriteError}
    {after : Bytes}
    (failed : (h.put length (s.view r) offset).run (s.view r).buffer = (.error e, after)) :
    s.writeHead r h length offset = .error { failure := .write e, store := s } := by
  rw [writeHead, failed, Head.buffer_of_put_error failed]
  dsimp only
  rw [setBuffer_self]

theorem writeHead_eq_ok_iff {r : ByteRef} {h : Head} {length offset : Number} {t : Store} :
    s.writeHead r h length offset = .ok t ↔
      ∃ content, h.write length (s.view r) offset = .ok content ∧
        s.setBuffer r.buffer content = t := by
  rw [writeHead, Head.write]
  rcases (h.put length (s.view r) offset).run (s.view r).buffer with ⟨_ | _, after⟩
  · simp
  · simp

theorem atomic_writeHead (r : ByteRef) (h : Head) (length offset : Number) :
    s.Atomic (s.writeHead r h length offset) := by
  intro b failed
  cases written : (h.put length (s.view r) offset).run (s.view r).buffer with
  | mk result after =>
    cases result with
    | ok _ =>
      rw [writeHead, written] at failed
      cases failed
    | error e =>
      rw [writeHead_of_put_error written] at failed
      cases failed
      exact ⟨rfl, rfl⟩

/-- A step that breaks off has changed nothing by then. -/
theorem atomic_step (step : Step) : s.Atomic (s.step step) := by
  cases step with
  | array | bytes | contents | take | size | clear | debug => exact atomic_ok _
  | arrayGet | bytesView | bytesSet | bytesGet | inspect | payloadOf | intoPayload | encode | encodePing
  | put => exact (atomic_attempt _).bind fun _ => atomic_ok _
  | fromBytes | make | load | decode | equals | parseHead =>
    exact (atomic_attempt _).bind fun _ => (atomic_attempt _).bind fun _ => atomic_ok _
  | arraySet name index value =>
    refine (atomic_attempt _).bind fun n => ?_
    dsimp only
    split
    · intro b failed
      cases failed
      exact ⟨rfl, rfl⟩
    · exact atomic_ok _
  | writeHead =>
    exact (atomic_attempt _).bind fun r => (atomic_writeHead r _ _ _).bind fun _ => atomic_ok _

end Atomic

/-! ## Runs -/

theorem advance_of_step {s : Store} {step : Step} {e : Effect} (taken : s.step step = .ok e) :
    s.advance step = (e.store, ⟨.ok e.reply, e.events⟩) := by
  rw [advance, taken]

theorem advance_of_error {s : Store} {step : Step} {b : Breakdown} (failed : s.step step = .error b) :
    s.advance step = (s, ⟨.error b.failure, []⟩) := by
  obtain ⟨store, events⟩ := atomic_step step b failed
  rw [advance, failed]
  dsimp only
  rw [store, events]

/-- The store after a series of steps. -/
def after (s : Store) (steps : List Step) : Store := (s.run steps).1

theorem after_cons (s : Store) (step : Step) (rest : List Step) :
    s.after (step :: rest) = (s.advance step).1.after rest := rfl

/-- What every step that does not fail preserves, every run preserves. -/
theorem after_induction {P : Store → Prop}
    (preserved : ∀ {s step e}, s.step step = .ok e → P s → P e.store) {s : Store} (holds : P s)
    (steps : List Step) : P (s.after steps) := by
  induction steps generalizing s with
  | nil => exact holds
  | cons step rest ih =>
    rw [after_cons]
    apply ih
    cases taken : s.step step with
    | ok e =>
      rw [advance_of_step taken]
      exact preserved taken holds
    | error b =>
      rw [advance_of_error taken]
      exact holds

/-! ## Sinks -/

theorem numbers_bindSink (s : Store) (name : String) (state : Sink) :
    (s.bindSink name state).numbers = s.numbers := by
  cases state <;> rfl

theorem pings_bindSink (s : Store) (name : String) (state : Sink) :
    (s.bindSink name state).pings = s.pings := by
  cases state <;> rfl

theorem numbers_openSink (s : Store) (name : String) : (s.openSink name).numbers = s.numbers := by
  unfold openSink
  split
  · rfl
  · exact numbers_bindSink _ _ _

theorem pings_openSink (s : Store) (name : String) : (s.openSink name).pings = s.pings := by
  unfold openSink
  split
  · rfl
  · exact pings_bindSink _ _ _

end Store

/-! ## Number arrays and PINGs -/

/-- The name that a step puts a PING under, unless it fails. -/
def Step.makes? : Step → Option String
  | .make _ name _ | .load name _ _ | .decode name _ => some name
  | _ => none

/-- All that a step which does not fail can do to the number arrays and the PINGs. -/
inductive Touches (s : Store) (step : Step) (e : Effect) : Prop
  | nothing (made : step.makes? = none) (pings : e.store.pings = s.pings)
      (numbers : e.store.numbers = s.numbers)
  | array (a : Entries) (made : step.makes? = none) (pings : e.store.pings = s.pings)
      (numbers : e.store.numbers = s.numbers ++ [⟨a, false⟩])
  | entry (n : Nat) (a : Entries) (thawed : (s.numberArray n).frozen = false)
      (made : step.makes? = none) (pings : e.store.pings = s.pings)
      (numbers : e.store.numbers = s.numbers.set n ⟨a, false⟩)
  | ping (name : String) (p : Ping) (made : step.makes? = some name) (reply : e.reply = .ping p)
      (store : e.store = s.bindPing name p)

theorem touches_of_step {s : Store} {step : Step} {e : Effect} (taken : s.step step = .ok e) :
    Touches s step e := by
  cases step with
  | bytes | debug =>
    cases taken
    exact .nothing rfl rfl rfl
  | arrayGet | bytesView | bytesSet | bytesGet | inspect | payloadOf | intoPayload | encodePing =>
    obtain ⟨_, -, taken⟩ := bind_eq_ok.1 taken
    cases taken
    exact .nothing rfl rfl rfl
  | equals | parseHead =>
    obtain ⟨_, -, taken⟩ := bind_eq_ok.1 taken
    obtain ⟨_, -, taken⟩ := bind_eq_ok.1 taken
    cases taken
    exact .nothing rfl rfl rfl
  | writeHead =>
    obtain ⟨_, -, taken⟩ := bind_eq_ok.1 taken
    obtain ⟨_, written, taken⟩ := bind_eq_ok.1 taken
    obtain ⟨_, -, rfl⟩ := Store.writeHead_eq_ok_iff.1 written
    cases taken
    exact .nothing rfl rfl rfl
  | contents | size =>
    cases taken
    exact .nothing rfl (Store.pings_openSink ..) (Store.numbers_openSink ..)
  | take sink bytes =>
    cases taken
    exact .nothing rfl (s.pings_openSink sink) (s.numbers_openSink sink)
  | clear =>
    cases taken
    exact .nothing rfl (Store.pings_bindSink ..) (Store.numbers_bindSink ..)
  | encode | put =>
    obtain ⟨_, -, taken⟩ := bind_eq_ok.1 taken
    cases taken
    exact .nothing rfl (Store.pings_bindSink ..) (Store.numbers_bindSink ..)
  | array name a =>
    cases taken
    exact .array a rfl rfl rfl
  | fromBytes =>
    obtain ⟨_, -, taken⟩ := bind_eq_ok.1 taken
    obtain ⟨_, -, taken⟩ := bind_eq_ok.1 taken
    cases taken
    exact .array _ rfl rfl rfl
  | arraySet =>
    obtain ⟨n, -, taken⟩ := bind_eq_ok.1 taken
    dsimp only at taken
    split at taken
    · cases taken
    · rename_i thawed
      cases taken
      exact .entry n _ (Bool.eq_false_iff.2 thawed) rfl rfl rfl
  | make | load | decode =>
    obtain ⟨_, -, taken⟩ := bind_eq_ok.1 taken
    obtain ⟨_, -, taken⟩ := bind_eq_ok.1 taken
    cases taken
    exact .ping _ _ rfl rfl rfl

end PingCodec.Session
