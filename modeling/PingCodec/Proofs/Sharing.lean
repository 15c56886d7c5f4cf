import PingCodec.Proofs.Immutability
import PingCodec.Proofs.Sinks

/-!
# Arrays that share storage

Byte arrays of a session share a buffer if and only if they were cut out of one byte array by views
(`linked_iff`), and a number array that goes by more than one name is frozen (`soleNames_after`).  Both
come from the five things that a step can do to the names of arrays (`binds_of_step`).
-/

namespace PingCodec.Session

/-! ## What a step does to names -/

/-- The name that a step puts a byte array of its own under, unless it fails. -/
def Step.allocates? : Step → Option String
  | .bytes name _ | .intoPayload _ name | .encodePing _ name | .take _ name => some name
  | _ => none

/-- Which names stand for parts of one byte array after a step that does not fail, given which did so
before: one that is cut out of another takes its place, one that is new stands alone. -/
def Step.relink (linked : String → String → Prop) (step : Step) (x y : String) : Prop :=
  match step with
  | .bytesView name target _ _ =>
    linked (if x = name then target else x) (if y = name then target else y)
  | _ =>
    match step.allocates? with
    | some name => (x = name ↔ y = name) ∧ (x ≠ name → linked x y)
    | none => linked x y

namespace Store

/-- Which names are linked after one more step; a step that fails links nothing. -/
def relink (s : Store) (linked : String → String → Prop) (step : Step) : String → String → Prop :=
  match s.step step with
  | .ok _ => step.relink linked
  | .error _ => linked

/-- Which names are linked after a series of steps. -/
def relinkAll : Store → (String → String → Prop) → List Step → String → String → Prop
  | _, linked, [] => linked
  | s, linked, step :: rest => relinkAll (s.advance step).1 (s.relink linked step) rest

/-- That two names stand for parts of one byte array at the end of a session: each was cut out of it by
a chain of views. -/
def Linked (steps : List Step) : String → String → Prop := relinkAll {} Eq steps

/-- All that a step which does not fail can do to the names of arrays. -/
inductive Binds (s : Store) (step : Step) (e : Effect) : Prop
  | nothing (links : ∀ linked, step.relink linked = linked) (bytes : e.store.bytes = s.bytes)
      (arrays : e.store.arrays = s.arrays)
  | copy (name : String) (n length : Nat) (allocates : step.allocates? = some name)
      (new : s.buffers.length ≤ n) (bytes : e.store.bytes = s.bytes.bind name ⟨n, 0, length⟩)
      (arrays : e.store.arrays = s.arrays)
  | view (name target : String) (first : Int) (last : Option Int) (r r' : ByteRef)
      (cut : step = .bytesView name target first last) (found : s.bytes.find? target = some r)
      (same : r'.buffer = r.buffer) (bytes : e.store.bytes = s.bytes.bind name r')
      (arrays : e.store.arrays = s.arrays)
  | array (name : String) (links : ∀ linked, step.relink linked = linked)
      (bytes : e.store.bytes = s.bytes) (arrays : e.store.arrays = s.arrays.bind name s.numbers.length)
      (more : s.numbers.length < e.store.numbers.length)
  | share (name ping : String) (r : PingRef) (links : ∀ linked, step.relink linked = linked)
      (bytes : e.store.bytes = s.bytes) (found : s.pings.find? ping = some r)
      (arrays : e.store.arrays = s.arrays.bind name r.array)

theorem bytes_bindSink (s : Store) (name : String) (state : Sink) :
    (s.bindSink name state).bytes = s.bytes := by
  cases state <;> rfl

theorem arrays_bindSink (s : Store) (name : String) (state : Sink) :
    (s.bindSink name state).arrays = s.arrays := by
  cases state <;> rfl

theorem buffers_bindSink (s : Store) (name : String) (state : Sink) :
    s.buffers <+: (s.bindSink name state).buffers := by
  cases state with
  | buffer b => exact List.prefix_append _ _
  | recorder r => exact List.prefix_rfl

theorem bytes_openSink (s : Store) (name : String) : (s.openSink name).bytes = s.bytes := by
  unfold openSink
  split_ifs
  · rfl
  · exact bytes_bindSink _ _ _

theorem arrays_openSink (s : Store) (name : String) : (s.openSink name).arrays = s.arrays := by
  unfold openSink
  split_ifs
  · rfl
  · exact arrays_bindSink _ _ _

theorem buffers_openSink (s : Store) (name : String) : s.buffers <+: (s.openSink name).buffers := by
  unfold openSink
  split_ifs
  · exact List.prefix_rfl
  · exact buffers_bindSink _ _ _

theorem binds_of_step {s : Store} {step : Step} {e : Effect} (taken : s.step step = .ok e) :
    Binds s step e := by
  cases step with
  | debug =>
    cases taken
    exact .nothing (fun _ => rfl) rfl rfl
  | arrayGet | bytesSet | bytesGet | inspect =>
    obtain ⟨_, -, taken⟩ := bind_eq_ok.1 taken
    cases taken
    exact .nothing (fun _ => rfl) rfl rfl
  | make | load | decode | equals | parseHead =>
    obtain ⟨_, -, taken⟩ := bind_eq_ok.1 taken
    obtain ⟨_, -, taken⟩ := bind_eq_ok.1 taken
    cases taken
    exact .nothing (fun _ => rfl) rfl rfl
  | writeHead =>
    obtain ⟨_, -, taken⟩ := bind_eq_ok.1 taken
    obtain ⟨_, written, taken⟩ := bind_eq_ok.1 taken
    obtain ⟨_, -, rfl⟩ := writeHead_eq_ok_iff.1 written
    cases taken
    exact .nothing (fun _ => rfl) rfl rfl
  | arraySet =>
    obtain ⟨n, -, taken⟩ := bind_eq_ok.1 taken
    dsimp only at taken
    split_ifs at taken
    cases taken
    exact .nothing (fun _ => rfl) rfl rfl
  | contents | size =>
    cases taken
    exact .nothing (fun _ => rfl) (bytes_openSink ..) (arrays_openSink ..)
  | clear =>
    cases taken
    exact .nothing (fun _ => rfl) (bytes_bindSink ..) (arrays_bindSink ..)
  | encode | put =>
    obtain ⟨_, -, taken⟩ := bind_eq_ok.1 taken
    cases taken
    exact .nothing (fun _ => rfl) (bytes_bindSink ..) (arrays_bindSink ..)
  | bytes =>
    cases taken
    exact .copy _ _ _ rfl (Nat.le_refl _) rfl rfl
  | intoPayload | encodePing =>
    obtain ⟨_, -, taken⟩ := bind_eq_ok.1 taken
    cases taken
    exact .copy _ _ _ rfl (Nat.le_refl _) rfl rfl
  | take sink bytes =>
    cases taken
    have bound : (s.openSink sink).bytes = s.bytes := bytes_openSink s sink
    exact .copy bytes _ _ rfl (buffers_openSink s sink).length_le (by rw [← bound]; rfl)
      (arrays_openSink s sink)
  | bytesView =>
    obtain ⟨r, found, taken⟩ := bind_eq_ok.1 taken
    cases taken
    exact .view _ _ _ _ r _ rfl (find?_of_attempt found) (by rfl) rfl rfl
  | array =>
    cases taken
    exact .array _ (fun _ => rfl) rfl rfl (by simp [bindArray])
  | fromBytes =>
    obtain ⟨_, -, taken⟩ := bind_eq_ok.1 taken
    obtain ⟨_, -, taken⟩ := bind_eq_ok.1 taken
    cases taken
    exact .array _ (fun _ => rfl) rfl rfl (by simp [bindArray])
  | payloadOf =>
    obtain ⟨r, found, taken⟩ := bind_eq_ok.1 taken
    cases taken
    exact .share _ _ r (fun _ => rfl) rfl (find?_of_attempt found) rfl

/-! ## Byte arrays -/

/-- That names of byte arrays share a buffer just as they are linked. -/
def Tracks (s : Store) (linked : String → String → Prop) : Prop :=
  ∀ x y r q, s.bytes.find? x = some r → s.bytes.find? y = some q →
    (linked x y ↔ r.buffer = q.buffer)

theorem relink_of_allocates {step : Step} {name : String} (allocates : step.allocates? = some name)
    (linked : String → String → Prop) (x y : String) :
    step.relink linked x y ↔ (x = name ↔ y = name) ∧ (x ≠ name → linked x y) := by
  unfold Step.relink
  split
  · cases allocates
  · rw [allocates]

theorem tracks_step {s : Store} {step : Step} {e : Effect} (taken : s.step step = .ok e)
    (apart : s.Apart) {linked : String → String → Prop} (tracks : s.Tracks linked) :
    e.store.Tracks (step.relink linked) := by
  intro x y r q hx hy
  cases binds_of_step taken with
  | nothing links bytes | array _ links bytes | share _ _ _ links bytes =>
    rw [links]
    exact tracks x y r q (bytes ▸ hx) (bytes ▸ hy)
  | copy name n length allocates new bytes =>
    rw [bytes, Bindings.find?_bind] at hx hy
    rw [relink_of_allocates allocates]
    split_ifs at hx hy with hxn hyn hyn
    · rw [← Option.some.inj hx, ← Option.some.inj hy]
      simp [hxn, hyn]
    · have older := apart.bytes hy
      rw [← Option.some.inj hx]
      simp only [hxn, hyn, iff_false, not_true, false_and, false_iff]
      omega
    · have older := apart.bytes hx
      rw [← Option.some.inj hy]
      simp only [hxn, hyn, false_iff, not_true, false_and]
      omega
    · simp [hxn, hyn, tracks x y r q hx hy]
  | view name target first last part r' cut found same bytes =>
    -- The new name stands for its target, on either side.
    have resolve {z : String} {p : ByteRef} (hz : e.store.bytes.find? z = some p) :
        ∃ p', s.bytes.find? (if z = name then target else z) = some p' ∧ p'.buffer = p.buffer := by
      rw [bytes, Bindings.find?_bind] at hz
      split_ifs at hz ⊢
      · exact ⟨part, found, by rw [← same, ← Option.some.inj hz]⟩
      · exact ⟨p, hz, rfl⟩
    obtain ⟨r₁, hx', sameX⟩ := resolve hx
    obtain ⟨q₁, hy', sameY⟩ := resolve hy
    rw [cut, ← sameX, ← sameY]
    exact tracks _ _ _ _ hx' hy'

/-! ## Number arrays -/

/-- That names of number arrays refer to arrays that are there, and that an array with several names is
frozen. -/
structure SoleNames (s : Store) : Prop where
  bound {x : String} {n : Nat} : s.arrays.find? x = some n → n < s.numbers.length
  shared {x y : String} {n : Nat} : s.arrays.find? x = some n → s.arrays.find? y = some n → x ≠ y →
    ∃ a, s.Frozen n a

theorem length_numbers_le {s : Store} {step : Step} {e : Effect} (taken : s.step step = .ok e) :
    s.numbers.length ≤ e.store.numbers.length := by
  cases touches_of_step taken with
  | nothing _ _ numbers => rw [numbers]
  | array a _ _ numbers =>
    rw [numbers, List.length_append]
    exact Nat.le_add_right _ _
  | entry n a _ _ _ numbers => rw [numbers, List.length_set]
  | ping name p _ _ store =>
    rw [store, bindPing, List.length_append]
    exact Nat.le_add_right _ _

/-- Names stay sole when one more is bound to an array that is new or frozen. -/
theorem SoleNames.of_bind {s t : Store} (sole : s.SoleNames)
    (longer : s.numbers.length ≤ t.numbers.length)
    (still : ∀ n, (∃ a, s.Frozen n a) → ∃ a, t.Frozen n a) {name : String} {m : Nat}
    (arrays : t.arrays = s.arrays.bind name m) (inside : m < t.numbers.length)
    (others : ∀ x, s.arrays.find? x = some m → ∃ a, t.Frozen m a) : t.SoleNames := by
  constructor
  · intro x n hx
    rw [arrays, Bindings.find?_bind] at hx
    split_ifs at hx
    · rwa [← Option.some.inj hx]
    · exact Nat.lt_of_lt_of_le (sole.bound hx) longer
  · intro x y n hx hy ne
    rw [arrays, Bindings.find?_bind] at hx hy
    split_ifs at hx hy with hxn hyn hyn
    · exact absurd (hxn.trans hyn.symm) ne
    · obtain rfl := Option.some.inj hx
      exact others y hy
    · obtain rfl := Option.some.inj hy
      exact others x hx
    · exact still n (sole.shared hx hy ne)

theorem soleNames_step {s : Store} {step : Step} {e : Effect} (taken : s.step step = .ok e)
    (closed : s.Sealed) (sole : s.SoleNames) : e.store.SoleNames := by
  have longer := length_numbers_le taken
  have still (n : Nat) : (∃ a, s.Frozen n a) → ∃ a, e.store.Frozen n a := by
    rintro ⟨a, frozen⟩
    exact ⟨a, frozen_step taken frozen⟩
  cases binds_of_step taken with
  | nothing _ _ arrays | copy _ _ _ _ _ _ arrays | view _ _ _ _ _ _ _ _ _ _ arrays =>
    constructor
    · intro x n hx
      exact Nat.lt_of_lt_of_le (sole.bound (arrays ▸ hx)) longer
    · intro x y n hx hy ne
      exact still n (sole.shared (arrays ▸ hx) (arrays ▸ hy) ne)
  | array name _ _ arrays more =>
    exact sole.of_bind longer still arrays more fun x hx => absurd (sole.bound hx) (Nat.lt_irrefl _)
  | share name ping r _ _ found arrays =>
    obtain ⟨a, frozen⟩ := closed ping r found
    have inside := (List.getElem?_eq_some_iff.1 frozen).1
    exact sole.of_bind longer still arrays (Nat.lt_of_lt_of_le inside longer)
      fun _ _ => still _ ⟨a, frozen⟩

/-! ## Whole sessions -/

theorem tracks_relinkAll {s : Store} (apart : s.Apart) {linked : String → String → Prop}
    (tracks : s.Tracks linked) (steps : List Step) :
    (s.after steps).Tracks (relinkAll s linked steps) := by
  induction steps generalizing s linked with
  | nil => exact tracks
  | cons step rest ih =>
    rw [after_cons, relinkAll]
    apply ih (apart_advance apart step)
    unfold relink
    cases taken : s.step step with
    | ok e =>
      rw [advance_of_step taken]
      exact tracks_step taken apart tracks
    | error b =>
      rw [advance_of_error taken]
      exact tracks

/-- In a session the names of byte arrays that are linked are those that share a buffer. -/
theorem linked_iff {steps : List Step} {x y : String} {r q : ByteRef}
    (hx : (({} : Store).after steps).bytes.find? x = some r)
    (hy : (({} : Store).after steps).bytes.find? y = some q) :
    Linked steps x y ↔ r.buffer = q.buffer :=
  tracks_relinkAll apart_empty nofun steps x y r q hx hy

theorem soleNames_after (steps : List Step) : (({} : Store).after steps).SoleNames := by
  have both : (({} : Store).after steps).Sealed ∧ (({} : Store).after steps).SoleNames :=
    after_induction (P := fun s => s.Sealed ∧ s.SoleNames)
      (fun taken holds => ⟨sealed_step taken holds.1, soleNames_step taken holds.1 holds.2⟩)
      ⟨sealed_after [], nofun, nofun⟩ steps
  exact both.2

end Store

end PingCodec.Session
