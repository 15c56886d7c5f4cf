import PingCodec.Proofs.Steps

/-!
# PINGs do not change

The entries of a PING lie in a number array that is frozen from the start.  No step writes to a
frozen array (`frozen_step`), and every PING that a session comes to has one (`sealed_after`), so
whatever a name answers for it answers for as long as nothing else is put under it.
-/

namespace PingCodec.Session.Store

/-! ## Frozen arrays -/

/-- That a number array is frozen, with the given entries. -/
def Frozen (s : Store) (n : Nat) (a : Entries) : Prop := s.numbers[n]? = some ⟨a, true⟩

theorem numberArray_of_frozen {s : Store} {n : Nat} {a : Entries} (frozen : s.Frozen n a) :
    s.numberArray n = ⟨a, true⟩ := by
  rw [numberArray, List.getD_eq_getElem?_getD, frozen, Option.getD_some]

theorem ping_of_frozen {s : Store} {r : PingRef} {a : Entries} (frozen : s.Frozen r.array a) :
    s.ping r = ⟨r.ack, a⟩ := by
  rw [ping, numberArray_of_frozen frozen]

/-- A new number array leaves the others where they are. -/
theorem frozen_of_append {s t : Store} {n : Nat} {a : Entries} {c : NumberArray}
    (numbers : t.numbers = s.numbers ++ [c]) (frozen : s.Frozen n a) : t.Frozen n a := by
  have bound := (List.getElem?_eq_some_iff.1 frozen).1
  rw [Frozen, numbers, List.getElem?_append_left bound, frozen]

/-- A frozen number array stays as it is in every step. -/
theorem frozen_step {s : Store} {step : Step} {e : Effect} (taken : s.step step = .ok e) {n : Nat}
    {a : Entries} (frozen : s.Frozen n a) : e.store.Frozen n a := by
  cases touches_of_step taken with
  | nothing _ _ numbers => rwa [Frozen, numbers]
  | array _ _ _ numbers => exact frozen_of_append numbers frozen
  | entry m b thawed _ _ numbers =>
    have other : m ≠ n := by
      rintro rfl
      rw [numberArray_of_frozen frozen] at thawed
      cases thawed
    rw [Frozen, numbers, List.getElem?_set_ne other, frozen]
  | ping name p _ _ store =>
    rw [store]
    exact frozen_of_append rfl frozen

theorem frozen_after {s : Store} {n : Nat} {a : Entries} (frozen : s.Frozen n a)
    (steps : List Step) : (s.after steps).Frozen n a :=
  after_induction (P := fun t => t.Frozen n a) (fun taken => frozen_step taken) frozen steps

/-! ## The arrays of PINGs -/

/-- That the array of every PING is frozen. -/
def Sealed (s : Store) : Prop := ∀ name r, s.pings.find? name = some r → ∃ a, s.Frozen r.array a

theorem frozen_bindPing (s : Store) (name : String) (p : Ping) :
    (s.bindPing name p).Frozen s.numbers.length p.entries := by
  simp [Frozen, bindPing]

/-- After a step a name stands for the PING that it stood for before, or for one that the step has
just made, with a frozen array. -/
theorem ref_of_step {s : Store} {step : Step} {e : Effect} (taken : s.step step = .ok e)
    {name : String} {r : PingRef} (bound : e.store.pings.find? name = some r) :
    s.pings.find? name = some r ∨
      ∃ p, step.makes? = some name ∧ e.reply = .ping p ∧ r.ack = p.ack ∧
        e.store.Frozen r.array p.entries := by
  cases touches_of_step taken with
  | nothing _ pings | array _ _ pings | entry _ _ _ _ pings => exact .inl (pings ▸ bound)
  | ping other p makes reply store =>
    by_cases same : name = other
    · subst same
      rw [store, bindPing, Bindings.find?_bind_self] at bound
      rw [← Option.some.inj bound, store]
      exact .inr ⟨p, makes, reply, rfl, frozen_bindPing s name p⟩
    · rw [store, bindPing, Bindings.find?_bind_of_ne _ _ same] at bound
      exact .inl bound

theorem sealed_step {s : Store} {step : Step} {e : Effect} (taken : s.step step = .ok e)
    (h : s.Sealed) : e.store.Sealed := by
  intro name r bound
  rcases ref_of_step taken bound with old | ⟨p, -, -, -, frozen⟩
  · obtain ⟨a, frozen⟩ := h name r old
    exact ⟨a, frozen_step taken frozen⟩
  · exact ⟨_, frozen⟩

/-- In a session the array of every PING is frozen. -/
theorem sealed_after (steps : List Step) : (({} : Store).after steps).Sealed := by
  have empty : ({} : Store).Sealed := by
    intro _ _ bound
    cases bound
  exact after_induction (P := Sealed) (fun taken => sealed_step taken) empty steps

/-! ## Names of PINGs -/

/-- That a run puts another PING under a name. -/
def Rebinds (s : Store) (name : String) (steps : List Step) : Prop :=
  ∃ x ∈ steps.zip (s.run steps).2, x.1.makes? = some name ∧ ∃ reply, x.2.result = .ok reply

theorem rebinds_cons (s : Store) (name : String) (step : Step) (rest : List Step) :
    s.Rebinds name (step :: rest) ↔
      (step.makes? = some name ∧ ∃ reply, (s.advance step).2.result = .ok reply) ∨
        (s.advance step).1.Rebinds name rest := by
  show (∃ x ∈ (step, (s.advance step).2) :: rest.zip ((s.advance step).1.run rest).2, _) ↔ _
  simp only [List.mem_cons, exists_eq_or_imp]
  rfl

/-- A step that puts nothing under a name leaves the PING there. -/
theorem find?_advance {s : Store} {name : String} {step : Step}
    (keeps : ¬ (step.makes? = some name ∧ ∃ reply, (s.advance step).2.result = .ok reply)) :
    (s.advance step).1.pings.find? name = s.pings.find? name := by
  cases taken : s.step step with
  | error b => rw [advance_of_error taken]
  | ok e =>
    rw [advance_of_step taken] at keeps ⊢
    cases touches_of_step taken with
    | nothing _ pings | array _ _ pings | entry _ _ _ _ pings => rw [pings]
    | ping other p made _ store =>
      have ne : name ≠ other := by
        rintro rfl
        exact keeps ⟨made, _, rfl⟩
      rw [store, bindPing, Bindings.find?_bind_of_ne _ _ ne]

theorem find?_after {s : Store} {name : String} {steps : List Step}
    (keeps : ¬ s.Rebinds name steps) : (s.after steps).pings.find? name = s.pings.find? name := by
  induction steps generalizing s with
  | nil => rfl
  | cons step rest ih =>
    rw [rebinds_cons, not_or] at keeps
    rw [after_cons, ih keeps.2, find?_advance keeps.1]

/-! ## Answers -/

/-- That a name answers for a PING, whatever it is used for. -/
structure AnswersFor (s : Store) (name : String) (p : Ping) : Prop where
  inspect : (s.advance (.inspect name)).2.result = .ok (.ping p)
  payloadOf (array : String) : (s.advance (.payloadOf name array)).2.result = .ok (.entries p.entries)
  intoPayload (bytes : String) :
    (s.advance (.intoPayload name bytes)).2.result = .ok (.bytes p.payloadBytes)
  encodePing (bytes : String) : (s.advance (.encodePing name bytes)).2.result = .ok (.bytes p.frame)
  encode (sink : String) :
    (s.advance (.encode name sink)).2.result = .ok (.sink ((s.sink sink).put p.frame))
  equals {other : String} {q : Ping} :
    (s.advance (.inspect other)).2.result = .ok (.ping q) →
      (s.advance (.equals name other)).2.result = .ok (.truth (p.equals q)) ∧
        (s.advance (.equals other name)).2.result = .ok (.truth (q.equals p))

theorem lookupPing_eq_ok {s : Store} {name : String} {r : PingRef}
    (bound : s.pings.find? name = some r) : s.lookupPing name = .ok (s.ping r) := by
  rw [lookupPing, lookup_eq_ok_iff.2 bound]
  rfl

theorem lookupPing_of_inspect {s : Store} {name : String} {p : Ping}
    (shown : (s.advance (.inspect name)).2.result = .ok (.ping p)) : s.lookupPing name = .ok p := by
  cases taken : s.step (.inspect name) with
  | error b =>
    rw [advance_of_error taken] at shown
    cases shown
  | ok e =>
    rw [advance_of_step taken] at shown
    obtain ⟨q, found, effect⟩ := bind_eq_ok.1 taken
    cases effect
    cases shown
    exact attempt_eq_ok_iff.1 found

theorem answersFor_of_find? {s : Store} {name : String} {r : PingRef}
    (bound : s.pings.find? name = some r) : s.AnswersFor name (s.ping r) where
  inspect := by
    rw [advance, step, lookupPing_eq_ok bound]
    rfl
  payloadOf array := by
    rw [advance, step, lookup_eq_ok_iff.2 bound]
    rfl
  intoPayload bytes := by
    rw [advance, step, lookupPing_eq_ok bound]
    rfl
  encodePing bytes := by
    rw [advance, step, lookupPing_eq_ok bound]
    rfl
  encode sink := by
    rw [advance, step, lookupPing_eq_ok bound]
    rfl
  equals shown := by
    have other := lookupPing_of_inspect shown
    constructor
    · rw [advance, step, lookupPing_eq_ok bound, other]
      rfl
    · rw [advance, step, lookupPing_eq_ok bound, other]
      rfl

/-! ## Handing out and making -/

/-- The entries that a PING hands out are its own array. -/
theorem find?_payloadOf {s : Store} {name : String} {r : PingRef}
    (bound : s.pings.find? name = some r) (array : String) :
    (s.advance (.payloadOf name array)).1.arrays.find? array = some r.array := by
  rw [advance, step, lookup_eq_ok_iff.2 bound]
  exact Bindings.find?_bind_self _ _ _

/-- A step that makes a PING shows it and puts it under the name. -/
theorem find?_makes {s : Store} {step : Step} {name : String} {reply : Reply}
    (makes : step.makes? = some name) (made : (s.advance step).2.result = .ok reply) :
    ∃ r, (s.advance step).1.pings.find? name = some r ∧
      reply = .ping ((s.advance step).1.ping r) := by
  cases taken : s.step step with
  | error b =>
    rw [advance_of_error taken] at made
    cases made
  | ok e =>
    rw [advance_of_step taken] at made ⊢
    cases touches_of_step taken with
    | nothing none | array _ none | entry _ _ _ none => cases none.symm.trans makes
    | ping other p makes' shown store =>
      obtain rfl : other = name := Option.some.inj (makes'.symm.trans makes)
      refine ⟨⟨p.ack, s.numbers.length⟩, ?_, ?_⟩
      · rw [store]
        exact Bindings.find?_bind_self _ _ _
      · rw [← Except.ok.inj made, shown, store, ping_of_frozen (frozen_bindPing s other p)]

/-- A write through the entries that a PING handed out fails and changes nothing. -/
theorem arraySet_of_frozen {s : Store} {array : String} {n : Nat} {a : Entries}
    (bound : s.arrays.find? array = some n) (frozen : s.Frozen n a) (index : Fin payloadSize)
    (value : Number) :
    s.advance (.arraySet array index value) = (s, ⟨.error (.frozen index), []⟩) := by
  apply advance_of_error (b := { failure := .frozen index, store := s })
  rw [step, lookup_eq_ok_iff.2 bound]
  show (if (s.numberArray n).frozen = true then _ else _) = _
  rw [numberArray_of_frozen frozen, if_pos rfl]

theorem arrayGet_of_frozen {s : Store} {array : String} {n : Nat} {a : Entries}
    (bound : s.arrays.find? array = some n) (frozen : s.Frozen n a) :
    (s.advance (.arrayGet array)).2.result = .ok (.entries a) := by
  rw [advance, step, lookup_eq_ok_iff.2 bound]
  show Except.ok (Reply.entries (s.numberArray n).entries) = _
  rw [numberArray_of_frozen frozen]

/-! ## Whole runs -/

/-- In a session no step changes a PING.  Whatever comes later, its entries are those that it had,
a write through the entries that it handed out fails, and its name answers for it until another
PING is put there; a step that makes a PING shows what is kept. -/
theorem pings_immutable (before : List Step) :
    let s := ({} : Store).after before
    (∀ name r, s.pings.find? name = some r → ∀ later,
      let t := s.after later
      t.ping r = s.ping r ∧
      (∀ array, t.arrays.find? array = some r.array →
        (t.advance (.arrayGet array)).2.result = .ok (.entries (s.ping r).entries) ∧
        ∀ index value, ∃ failure, failure.name = "TypeError" ∧
          t.advance (.arraySet array index value) = (t, ⟨.error failure, []⟩)) ∧
      (¬ s.Rebinds name later → t.AnswersFor name (s.ping r))) ∧
    (∀ step name reply, step.makes? = some name → (s.advance step).2.result = .ok reply →
      ∃ r, (s.advance step).1.pings.find? name = some r ∧
        reply = .ping ((s.advance step).1.ping r)) ∧
    (∀ name r, s.pings.find? name = some r → ∀ array,
      (s.advance (.payloadOf name array)).1.arrays.find? array = some r.array) := by
  intro s
  refine ⟨fun name r bound later => ?_, fun _ _ _ => find?_makes, fun _ _ => find?_payloadOf⟩
  obtain ⟨a, frozen⟩ := sealed_after before name r bound
  have still := frozen_after frozen later
  have same : (s.after later).ping r = s.ping r := by
    rw [ping_of_frozen still, ping_of_frozen frozen]
  refine ⟨same, fun array shared => ⟨?_, fun index value => ?_⟩, fun keeps => ?_⟩
  · rw [arrayGet_of_frozen shared still, ping_of_frozen frozen]
  · exact ⟨_, rfl, arraySet_of_frozen shared still index value⟩
  · rw [← same]
    exact answersFor_of_find? ((find?_after keeps).trans bound)

/-- A write to the array that a PING was made of is lost on it, and one to the array that it hands out
fails. -/
theorem pings_immutable_zeros :
    let zeros : Entries := Vector.replicate payloadSize (Number.ofNat 0)
    let s := ({} : Store).after [.array "source" zeros, .make false "ping" (.array "source")]
    let t := s.after
      [.arraySet "source" 0 (Number.ofNat 7), .payloadOf "ping" "payload",
        .arraySet "payload" 0 (Number.ofNat 7)]
    s.pings.find? "ping" = some ⟨false, 1⟩ ∧ t.ping ⟨false, 1⟩ = ⟨false, zeros⟩ ∧
    (∃ failure, failure.name = "TypeError" ∧
      t.advance (.arraySet "payload" 0 (Number.ofNat 7)) = (t, ⟨.error failure, []⟩)) ∧
    t.AnswersFor "ping" ⟨false, zeros⟩ := by
  intro zeros s t
  have bound : s.pings.find? "ping" = some ⟨false, 1⟩ := rfl
  obtain ⟨same, shared, answers⟩ :=
    (pings_immutable [.array "source" zeros, .make false "ping" (.array "source")]).1 "ping" _ bound
      [.arraySet "source" 0 (Number.ofNat 7), .payloadOf "ping" "payload",
        .arraySet "payload" 0 (Number.ofNat 7)]
  refine ⟨bound, same, (shared "payload" rfl).2 0 (Number.ofNat 7), answers ?_⟩
  rintro ⟨x, mem, makes, -⟩
  have others : ∀ step ∈ [Step.arraySet "source" 0 (Number.ofNat 7), .payloadOf "ping" "payload",
      .arraySet "payload" 0 (Number.ofNat 7)], step.makes? = none := by simp [Step.makes?]
  rw [others _ (List.of_mem_zip mem).1] at makes
  cases makes

end PingCodec.Session.Store
