import PingCodec.Proofs.DebugLog
import PingCodec.Proofs.Sinks

/-!
# The debug log of a session

A session has one debug log, which any step can switch and which all PINGs share.  A step that does not
switch it answers the same whatever it is set to, and leaves the same things behind
(`advance_withLog`), so that two sessions which differ in the switching only come to the same
(`run_withLog`).  What the log says is told by the steps that encode a PING, each with the switch as the
steps in front of it have left it (`lines_run`).
-/

namespace PingCodec.Session

/-- What a step switches the debug log to. -/
def Step.switches? : Step → Option Bool
  | .debug on => some on
  | _ => none

/-- The PING that a step encodes. -/
def Step.encodes? : Step → Option String
  | .encode ping _ | .encodePing ping _ => some ping
  | _ => none

/-- The steps that do not switch the debug log. -/
def unswitched (steps : List Step) : List Step := steps.filter fun step => step.switches?.isNone

/-- Whether the debug log is on after some steps: the last one that switches it counts, and it is off
before the first. -/
def switchedOn (steps : List Step) : Bool := (steps.filterMap Step.switches?).getLastD false

/-- The results of the steps that do not switch the debug log. -/
def results (steps : List Step) (answers : List Answer) : List (Except Failure Reply) :=
  ((steps.zip answers).filter fun x => x.1.switches?.isNone).map fun x => x.2.result

namespace Store

def withLog (s : Store) (log : Logger) : Store := { s with log := log }

/-- The PING that a step encodes, if there is one under the name. -/
def encoded? (s : Store) (step : Step) : Option Ping :=
  step.encodes?.bind fun name => (s.pings.find? name).map s.ping

/-- What a step says to a debug log. -/
def logged (s : Store) (log : Logger) (step : Step) : List Event :=
  match s.encoded? step with
  | some p => log.record (.encoding p.ack payloadSize)
  | none => []

/-! ## One step -/

theorem bindSink_withLog (s : Store) (log : Logger) (name : String) (state : Sink) :
    (s.withLog log).bindSink name state = (s.bindSink name state).withLog log := by
  cases state <;> rfl

theorem openSink_withLog (s : Store) (log : Logger) (name : String) :
    (s.withLog log).openSink name = (s.openSink name).withLog log := by
  unfold openSink
  rw [apply_ite (fun t => withLog t log), ← bindSink_withLog]
  rfl

theorem encoded?_of_lookupPing {s : Store} {step : Step} {name : String} {p : Ping}
    (encodes : step.encodes? = some name) (found : s.lookupPing name = .ok p) :
    s.encoded? step = some p := by
  unfold lookupPing lookup at found
  rw [encoded?, encodes, Option.bind_some]
  cases bound : s.pings.find? name with
  | none =>
    rw [bound] at found
    cases found
  | some r =>
    rw [bound] at found
    exact congrArg some (Except.ok.inj found)

/-- The PING that is encoded is there if and only if the step does not fail. -/
theorem isSome_encoded?_iff (s : Store) (step : Step) :
    (s.encoded? step).isSome ↔
      step.encodes?.isSome ∧ ∃ reply, (s.advance step).2.result = .ok reply := by
  cases step with
  | encode name | encodePing name =>
    cases bound : s.pings.find? name with
    | none =>
      have failed : s.lookupPing name = .error (.unbound name) := by
        rw [lookupPing, lookup, bound]
        rfl
      refine iff_of_false (by simp [encoded?, Step.encodes?, bound]) ?_
      rintro ⟨-, reply, shown⟩
      rw [advance, Store.step, failed] at shown
      cases shown
    | some r =>
      refine iff_of_true (by simp [encoded?, Step.encodes?, bound]) ⟨rfl, ?_⟩
      rw [advance, Store.step, lookupPing_eq_ok bound]
      exact ⟨_, rfl⟩
  | _ => simp [encoded?, Step.encodes?]

/-- What a step comes to with another log: the same reply or the same failure, and the same store but
for the log. -/
def relog (log : Logger) (events : List Event) (x : Except Breakdown Effect) :
    Except Breakdown Effect :=
  (x.map fun e => ⟨e.reply, e.store.withLog log, events⟩).mapError fun b =>
    ⟨b.failure, b.store.withLog log, b.events⟩

/-- What holds of the rest of a step for whatever is looked up first holds of the step. -/
theorem bind_eq_relog {α : Type} {s : Store} {log : Logger} {events : List Event}
    {x : Except Failure α} {f f' : α → Except Breakdown Effect}
    (same : ∀ a, x = .ok a → f' a = relog log events (f a)) :
    (s.withLog log).attempt x >>= f' = relog log events (s.attempt x >>= f) := by
  cases x with
  | error failure => rfl
  | ok a => exact same a rfl

theorem step_withLog (s : Store) (log : Logger) {step : Step} (quiet : step.switches? = none) :
    (s.withLog log).step step = relog log (s.logged log step) (s.step step) := by
  cases step with
  | debug on => cases quiet
  | array | bytes => rfl
  | contents | size | take =>
    simp only [Store.step, openSink_withLog]
    rfl
  | clear =>
    simp only [Store.step, bindSink_withLog]
    rfl
  | arrayGet | bytesView | bytesSet | bytesGet | inspect | payloadOf | intoPayload =>
    exact bind_eq_relog fun _ _ => rfl
  | fromBytes | load | decode | equals | parseHead =>
    exact bind_eq_relog fun _ _ => bind_eq_relog fun _ _ => rfl
  | make ack name source =>
    cases source <;> exact bind_eq_relog fun _ _ => bind_eq_relog fun _ _ => rfl
  | writeHead bytes head length offset =>
    refine bind_eq_relog fun r _ => ?_
    show (s.withLog log).writeHead r head length offset >>= _ =
      relog log _ (s.writeHead r head length offset >>= _)
    have view : (s.withLog log).view r = s.view r := rfl
    rw [writeHead, writeHead, view]
    rcases (head.put length (s.view r) offset).run (s.view r).buffer with ⟨_ | _, _⟩
    · rfl
    · rfl
  | arraySet name index value =>
    refine bind_eq_relog fun n _ => ?_
    show (if (s.numberArray n).frozen = true then _ else _) = relog log _ (if _ then _ else _)
    rw [apply_ite (relog log _)]
    rfl
  | put sink bytes =>
    refine bind_eq_relog fun r _ => ?_
    show Except.ok (Effect.mk _ ((s.withLog log).bindSink sink _) _) = _
    rw [bindSink_withLog]
    rfl
  | encode name sink =>
    refine bind_eq_relog fun p found => ?_
    show Except.ok (Effect.mk _ ((s.withLog log).bindSink sink _) _) = Except.ok (Effect.mk _ _ _)
    rw [bindSink_withLog, logged, @encoded?_of_lookupPing s (.encode name sink) name p rfl found]
    rfl
  | encodePing name bytes =>
    refine bind_eq_relog fun p found => ?_
    show _ = Except.ok (Effect.mk _ _ (s.logged log _))
    rw [logged, @encoded?_of_lookupPing s (.encodePing name bytes) name p rfl found]
    rfl

theorem advance_withLog (s : Store) (log : Logger) {step : Step} (quiet : step.switches? = none) :
    (s.withLog log).advance step =
      ((s.advance step).1.withLog log, ⟨(s.advance step).2.result, s.logged log step⟩) := by
  rw [advance, step_withLog s log quiet]
  cases taken : s.step step with
  | ok e =>
    rw [advance_of_step taken]
    rfl
  | error b =>
    have silent : ¬ (s.encoded? step).isSome := by
      rw [isSome_encoded?_iff, advance_of_error taken]
      rintro ⟨-, reply, shown⟩
      cases shown
    obtain ⟨store, events⟩ := atomic_step step b taken
    rw [advance_of_error taken, logged, Option.not_isSome_iff_eq_none.1 silent]
    show (b.store.withLog log, (⟨.error b.failure, b.events⟩ : Answer)) = _
    rw [store, events]

/-- What a step says to the log of its session, whether it switches it or not. -/
theorem events_advance (s : Store) (step : Step) :
    (s.advance step).2.events = s.logged s.log step := by
  cases switches : step.switches? with
  | none => exact congrArg (fun x => x.2.events) (advance_withLog s s.log switches)
  | some on =>
    cases step with
    | debug on => rfl
    | _ => cases switches

theorem log_advance (s : Store) (step : Step) :
    (s.advance step).1.log = (step.switches?.elim s.log fun on => ⟨on⟩) := by
  cases switches : step.switches? with
  | none => exact congrArg (fun x => x.1.log) (advance_withLog s s.log switches)
  | some on =>
    cases step with
    | debug on => exact congrArg Logger.mk (Option.some.inj switches)
    | _ => cases switches

/-! ## Runs -/

theorem log_after (s : Store) (steps : List Step) :
    (s.after steps).log = ⟨(steps.filterMap Step.switches?).getLastD s.log.enabled⟩ := by
  induction steps generalizing s with
  | nil => rfl
  | cons step rest ih =>
    rw [after_cons, ih, log_advance]
    cases switches : step.switches? with
    | none => rw [List.filterMap_cons_none switches, Option.elim_none]
    | some on => rw [List.filterMap_cons_some switches, List.getLastD_cons, Option.elim_some]

/-- What a session prints to its log, step by step. -/
theorem lines_run (s : Store) (steps : List Step) (time : String) :
    (s.run steps).2.map (fun answer => answer.events.map (Event.line time)) =
      steps.mapIdx fun i step =>
        ((s.after (steps.take i)).logged (s.after (steps.take i)).log step).map (Event.line time) := by
  induction steps generalizing s with
  | nil => rfl
  | cons step rest ih =>
    have first := congrArg (List.map (Event.line time)) (events_advance s step)
    rw [List.mapIdx_cons]
    exact congrArg₂ List.cons first (ih (s.advance step).1)

theorem run_cons (s : Store) (step : Step) (rest : List Step) :
    s.run (step :: rest) =
      (((s.advance step).1.run rest).1, (s.advance step).2 :: ((s.advance step).1.run rest).2) :=
  rfl

theorem results_cons (step : Step) (rest : List Step) (answer : Answer) (answers : List Answer) :
    results (step :: rest) (answer :: answers) =
      if step.switches?.isNone then answer.result :: results rest answers
      else results rest answers := by
  rw [results, List.zip_cons_cons, List.filter_cons]
  split <;> rfl

/-- A session comes to what it comes to without the steps that switch the log. -/
theorem run_withLog (s : Store) (log : Logger) (steps : List Step) :
    (∃ log', ((s.withLog log).run steps).1 = (s.run (unswitched steps)).1.withLog log') ∧
      results steps ((s.withLog log).run steps).2 =
        (s.run (unswitched steps)).2.map Answer.result := by
  induction steps generalizing s log with
  | nil => exact ⟨⟨log, rfl⟩, rfl⟩
  | cons step rest ih =>
    cases switches : step.switches? with
    | none =>
      obtain ⟨store, others⟩ := ih (s.advance step).1 log
      have kept : unswitched (step :: rest) = step :: unswitched rest :=
        List.filter_cons_of_pos (by rw [switches]; rfl)
      rw [kept, run_cons, run_cons, advance_withLog s log switches, results_cons, switches,
        Option.isNone_none, if_pos rfl, others]
      exact ⟨store, rfl⟩
    | some on =>
      obtain rfl : step = .debug on := by
        cases step with
        | debug => exact congrArg Step.debug (Option.some.inj switches)
        | _ => cases switches
      exact ih s ⟨on⟩

theorem line_logged (s : Store) (on : Bool) (step : Step) (time : String) :
    (s.logged ⟨on⟩ step).map (Event.line time) =
      if on then
        (s.encoded? step).toList.map fun p =>
          "[" ++ time ++ "] [DEBUG] encoding PING; ack=" ++ Json.boolText p.ack ++ " len=8"
      else [] := by
  have line (ack : Bool) : (Event.encoding ack payloadSize).line time =
      "[" ++ time ++ "] [DEBUG] encoding PING; ack=" ++ Json.boolText ack ++ " len=8" := by
    rw [Cli.line_encoding, Cli.debugMark]
    simp only [String.append_assoc]
    rfl
  rw [logged]
  cases s.encoded? step with
  | none => exact (ite_self _).symm
  | some p =>
    cases on with
    | false => rfl
    | true => exact congrArg ([·]) (line p.ack)

/-- Two sessions that differ only in where they switch the debug log and to what answer the same, down
to the errors, and leave the same things behind.  The log of a session has one line for each PING that
is encoded while it is on, in the order of the steps, and no other line; a step that encodes a PING
does so unless it fails. -/
theorem log_transparent {steps other : List Step} (same : unswitched other = unswitched steps) :
    let run := ({} : Store).run steps
    let run' := ({} : Store).run other
    results other run'.2 = results steps run.2 ∧
    run'.1.withLog run.1.log = run.1 ∧
    (∀ time, (run.2.flatMap Answer.events).map (Event.line time) =
      (steps.mapIdx fun i step =>
        if switchedOn (steps.take i) then
          ((({} : Store).after (steps.take i)).encoded? step).toList.map fun p =>
            "[" ++ time ++ "] [DEBUG] encoding PING; ack=" ++ Json.boolText p.ack ++ " len=8"
        else []).flatten) ∧
    ∀ (s : Store) step, (s.encoded? step).isSome ↔
      step.encodes?.isSome ∧ ∃ reply, (s.advance step).2.result = .ok reply := by
  intro run run'
  obtain ⟨⟨log, store⟩, answers⟩ := run_withLog {} {} steps
  obtain ⟨⟨log', store'⟩, answers'⟩ := run_withLog {} {} other
  rw [same] at store' answers'
  refine ⟨answers'.trans answers.symm, ?_, fun time => ?_, isSome_encoded?_iff⟩
  · show (Store.run (withLog {} {}) other).1.withLog (Store.run (withLog {} {}) steps).1.log =
      (Store.run (withLog {} {}) steps).1
    rw [store, store']
    rfl
  · rw [List.map_flatMap, List.flatMap_def, lines_run]
    congr 2
    funext i step
    rw [log_after]
    exact line_logged _ _ step time

/-- The log is on for the probe in one session and for the response in the other; what is asked for
under a name that nothing has is not logged in either. -/
theorem log_transparent_moved :
    let zeros : Entries := Vector.replicate payloadSize (Number.ofNat 0)
    let making : List Step :=
      [.make false "probe" (.entries zeros), .make true "pong" (.entries zeros)]
    let steps := making ++
      [.debug true, .encode "probe" "out", .encodePing "none" "frame", .debug false,
        .encodePing "pong" "frame"]
    let other := making ++
      [.encode "probe" "out", .debug true, .encodePing "none" "frame", .encodePing "pong" "frame"]
    unswitched other = unswitched steps ∧
    results other (({} : Store).run other).2 = results steps (({} : Store).run steps).2 ∧
    ((({} : Store).run steps).2.flatMap Answer.events).map (Event.line "12:00") =
      ["[12:00] [DEBUG] encoding PING; ack=false len=8"] ∧
    ((({} : Store).run other).2.flatMap Answer.events).map (Event.line "12:00") =
      ["[12:00] [DEBUG] encoding PING; ack=true len=8"] := by
  intro zeros making steps other
  have same : unswitched other = unswitched steps := rfl
  obtain ⟨results, -, lines, -⟩ := log_transparent same
  obtain ⟨-, -, moved, -⟩ := log_transparent same.symm
  exact ⟨same, results, (lines "12:00").trans (by rfl), (moved "12:00").trans (by rfl)⟩

end Store

end PingCodec.Session
