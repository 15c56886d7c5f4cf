import PingCodec.Proofs.CommandAgreement
import PingCodec.Proofs.Lines

/-!
# All or nothing

A run either succeeds without a complaint or fails with one, and a run that fails has printed nothing
of a result, not even a part of it.  What a script prints before it fails stays where it is, so this
rests on the scripts: all that can fail in an action stands before the first line that it prints.
-/

namespace PingCodec.Cli

open Outcome

/-! ## All runs -/

/-- That an outcome is a success without a complaint, or else a failure with one that has printed
nothing but what the debug log keeps of some events. -/
def AllOrNothing (log : Logger) (o : Outcome) : Prop :=
  o.exit = 0 ∧ o.stderr = [] ∨
    o.exit = 1 ∧ o.stderr ≠ [] ∧
      ∃ events : List Event, o.stdout = (events.flatMap log.record).map .debug

theorem allOrNothing_success (log : Logger) (lines : List String) :
    AllOrNothing log (.success lines) :=
  .inl ⟨rfl, rfl⟩

theorem allOrNothing_failure (log : Logger) {complaint : List String} (some : complaint ≠ []) :
    AllOrNothing log (.failure complaint) :=
  .inr ⟨rfl, some, [], rfl⟩

theorem allOrNothing_of_settled (log : Logger) {o : Outcome} (h : Settled o) : AllOrNothing log o := by
  cases h with
  | version | programHelp | commandHelp c => exact allOrNothing_success log _
  | usage e | noCommand => exact allOrNothing_failure log (List.cons_ne_nil _ _)

/-- A script that fails with something printed would leave it behind. -/
theorem allOrNothing_finish (log : Logger) {script : Script Unit} (first : script.FailsFirst) :
    AllOrNothing log (finish log script) := by
  rw [finish]
  split
  · exact .inl ⟨rfl, rfl⟩
  · rename_i e printed failed
    obtain rfl := first [] e printed failed
    exact .inr ⟨rfl, List.cons_ne_nil _ _, [.commandFailed e.name], by simp⟩

theorem allOrNothing_runWith {read : List String → CommandLine} (conventions : Conventions read)
    (env : Environment) (arguments : List String) :
    AllOrNothing ((read arguments).logger env) (runWith read env arguments) := by
  rw [runWith, CommandLine.execute]
  split
  · rename_i o course
    exact allOrNothing_of_settled _ (conventions.settled course)
  · rename_i a _
    exact allOrNothing_finish _ (a.failsFirst_perform _ _)

/-! ## Commands that take a hex text -/

theorem message_badArgument (t : String) (e : ArgumentError) :
    errorLine (UsageError.badArgument "hex" t e).message =
      "error: command-argument value '" ++ t ++ "' is invalid for argument 'hex'. " ++ e.message := by
  -- The literals of the statement are the pieces of the message put together.
  have front : "error: command-argument value '" = "error: " ++ ("command-argument value " ++ "'") := rfl
  have back : "' is invalid for argument 'hex'. " =
      "'" ++ " is invalid for argument " ++ ("'" ++ "hex" ++ "'") ++ ". " := rfl
  rw [front, back]
  show "error: " ++ ("command-argument value " ++ ("'" ++ t ++ "'") ++ " is invalid for argument " ++
    ("'" ++ "hex" ++ "'") ++ ". " ++ e.message) = _
  simp only [String.append_assoc]

theorem seen_badArgument (time t : String) (e : ArgumentError) :
    (UsageError.badArgument "hex" t e).outcome.seen time =
      (1, "", "error: command-argument value '" ++ t ++ "' is invalid for argument 'hex'. " ++
        e.message ++ "\n") := by
  rw [UsageError.outcome, seen_failure, message_badArgument]

/-- The complaint over a frame error: its message, and the name of its code in parentheses. -/
theorem line_frame (f : FrameError) :
    (CommandError.frame f).line = "error: " ++ f.message ++ " (" ++ f.code.name ++ ")" := by
  have named : f.report.codeName? = some f.code.name := by cases f <;> rfl
  rw [CommandError.line, ErrorReport.line, named]
  show "error: " ++ (f.message ++ " (" ++ f.code.name ++ ")") = _
  simp only [String.append_assoc]

theorem seen_failure_frame (time : String) (f : FrameError) :
    (Outcome.failure [(CommandError.frame f).line]).seen time =
      (1, "", "error: " ++ f.message ++ " (" ++ f.code.name ++ ")" ++ "\n") := by
  rw [seen_failure, line_frame]

section

variable {read : List String → CommandLine} (conventions : Conventions read) {env : Environment}
  (time : String) {t : String}

include conventions

theorem seen_of_parseHex_eq_error (word : IsWord t) {e : ArgumentError} (h : parseHex t = .error e)
    {name : String} (mem : name ∈ ["decode", "classify"]) :
    (runWith read env [name, t]).seen time =
      (1, "", "error: command-argument value '" ++ t ++ "' is invalid for argument 'hex'. " ++
        e.message ++ "\n") := by
  have refused (action : Bytes → Action) :
      Course.ofHex action t = .settled (UsageError.badArgument "hex" t e).outcome := by
    rw [Course.ofHex, h]
  rw [← seen_badArgument time]
  simp only [List.mem_cons, List.not_mem_nil, or_false] at mem
  obtain rfl | rfl := mem
  · rw [runWith_of_settled ((conventions.decode word).trans (by rw [refused]))]
  · rw [runWith_of_settled ((conventions.classify word).trans (by rw [refused]))]

variable (off : env.debugEnabled = false) {bs : Bytes} (h : parseHex t = .ok bs)

include off h

theorem seen_decode :
    (runWith read env ["decode", t]).seen time =
      match Ping.ofFrame (View.whole bs) with
      | .ok p => (0, joinLines p.description, "")
      | .error (.frame f) => (1, "", "error: " ++ f.message ++ " (" ++ f.code.name ++ ")" ++ "\n")
      | .error (.entry e) => (1, "", "error: " ++ e.message ++ "\n") := by
  rw [runWith_of_action off (read_decode conventions h), Action.output]
  cases Ping.ofFrame (View.whole bs) with
  | ok p => exact seen_success time p.description
  | error e =>
    cases e with
    | frame f => exact seen_failure_frame time f
    | entry e => exact seen_failure time _

theorem seen_classify :
    (runWith read env ["classify", t]).seen time =
      match Payload.ofBytes bs with
      | .ok p => (0, p.classify.text ++ "\n", "")
      | .error f => (1, "", "error: " ++ f.message ++ " (" ++ f.code.name ++ ")" ++ "\n") := by
  rw [runWith_of_action off (read_classify conventions h), Action.output]
  cases Payload.ofBytes bs with
  | ok p => exact (seen_success time [p.classify.text]).trans (by rw [joinLines_singleton])
  | error f => exact seen_failure_frame time f

end

/-- Every run is all or nothing, since no command has printed anything when it fails.  With the debug log
off, a command that takes a hex text prints its whole result, or one line that says why there is none. -/
theorem run_all_or_nothing :
    Conventions .ofArguments ∧
    (∀ (log : Logger) (draws : List Payload) (a : Action), (a.perform log draws).FailsFirst) ∧
    ∀ read, Conventions read → ∀ (env : Environment) (arguments : List String) (time : String),
      ((runWith read env arguments).exit = 0 ∧ (runWith read env arguments).stderrText = "" ∨
        (runWith read env arguments).exit = 1 ∧ (runWith read env arguments).stderrText ≠ "" ∧
          ∃ events : List Event,
            (runWith read env arguments).stdoutText time = joinLines (events.map (Event.line time)) ∧
            (env.debug ≠ some "1" → .verbose ∉ (scan programOptions false arguments).given →
              events = [])) ∧
      (env.debug ≠ some "1" → ∀ t, IsWord t →
        (∀ e, parseHex t = .error e → e = .notHex t ∧ ∀ name ∈ ["decode", "classify"],
          (runWith read env [name, t]).seen time =
            (1, "", "error: command-argument value '" ++ t ++ "' is invalid for argument 'hex'. " ++
              e.message ++ "\n")) ∧
        ∀ bs, parseHex t = .ok bs →
          (runWith read env ["decode", t]).seen time =
            (match Ping.ofFrame (View.whole bs) with
            | .ok p => (0, joinLines p.description, "")
            | .error (.frame f) => (1, "", "error: " ++ f.message ++ " (" ++ f.code.name ++ ")" ++ "\n")
            | .error (.entry e) => (1, "", "error: " ++ e.message ++ "\n")) ∧
          (∀ e, Ping.ofFrame (View.whole bs) = .error e → ∃ f, e = .frame f) ∧
          (runWith read env ["classify", t]).seen time =
            (match Payload.ofBytes bs with
            | .ok p => (0, p.classify.text ++ "\n", "")
            | .error f => (1, "", "error: " ++ f.message ++ " (" ++ f.code.name ++ ")" ++ "\n"))) := by
  refine ⟨conventions_ofArguments, fun log draws a => a.failsFirst_perform log draws,
    fun read conventions env arguments time => ⟨?_, fun off t word => ?_⟩⟩
  · obtain ⟨exit, stderr⟩ | ⟨exit, stderr, events, stdout⟩ :=
      allOrNothing_runWith conventions env arguments
    · exact .inl ⟨exit, (joinLines_eq_empty_iff _).2 stderr⟩
    · refine .inr ⟨exit, mt (joinLines_eq_empty_iff _).1 stderr,
        events.flatMap ((read arguments).logger env).record, ?_, fun off quiet => ?_⟩
      · rw [stdoutText, stdout, List.map_map]
        rfl
      · rw [logger_eq_off conventions off quiet]
        exact List.flatMap_eq_nil_iff.2 fun _ _ => rfl
  · have off := (debugEnabled_eq_false_iff env).2 off
    exact ⟨fun e h => ⟨eq_notHex_of_parseHex h,
        fun name => seen_of_parseHex_eq_error conventions time word h⟩,
      fun bs h => ⟨seen_decode conventions time off h, fun e => Ping.frame_of_ofFrame_eq_error,
        seen_classify conventions time off h⟩⟩

/-- A header without its payload fails, and the log tells; a text that is not hex is refused; and a
payload with a user tag is named. -/
theorem run_all_or_nothing_user :
    ((run { debug := some "1" } ["decode", "000008060000000000"]).exit = 1 ∧
      ∃ events : List Event, (run { debug := some "1" } ["decode", "000008060000000000"]).stdoutText "" =
        joinLines (events.map (Event.line ""))) ∧
    (run {} ["decode", "000008060000000000"]).seen "" =
      (1, "", "error: Header declares 8 payload bytes, got 0 (ERR_BAD_FRAME_SIZE)\n") ∧
    (run {} ["decode", "zz"]).seen "" =
      (1, "", "error: command-argument value 'zz' is invalid for argument 'hex'. " ++
        "Not a hex byte string: \"zz\"" ++ "\n") ∧
    (run {} ["classify", "3B7CDB7A 0B871601"]).seen "" = (0, "user:1\n", "") := by
  have every := run_all_or_nothing.2.2 .ofArguments conventions_ofArguments
  have quiet := (every {} [] "").2 (by decide)
  have header : parseHex "000008060000000000" = .ok [0, 0, 8, 6, 0, 0, 0, 0, 0] := by decide
  have refused : parseHex "zz" = .error (.notHex "zz") := by decide
  have payload : parseHex "3B7CDB7A 0B871601" = .ok (userPayload 1).toBytes := by decide
  refine ⟨?_, ((quiet _ (by decide)).2 _ header).1.trans (by decide +kernel),
    (((quiet _ (by decide)).1 _ refused).2 _ (by decide)).trans (by decide +kernel),
    ((quiet _ (by decide)).2 _ payload).2.2.trans (by decide +kernel)⟩
  have failed : (run { debug := some "1" } ["decode", "000008060000000000"]).exit = 1 := by
    decide +kernel
  obtain ⟨exit, -⟩ | ⟨exit, -, events, stdout, -⟩ :=
    (every { debug := some "1" } ["decode", "000008060000000000"] "").1
  · exact absurd (failed.symm.trans exit) (by decide)
  · exact ⟨exit, events, stdout⟩

end PingCodec.Cli
