import PingCodec.Proofs.CommandAgreement
import PingCodec.Proofs.Lossless
import PingCodec.Proofs.Pages

/-!
# What the debug log changes

The debug log adds lines to the first stream and changes nothing else, whichever way it is switched
on.  Its lines all open with the same mark, which no line of a result does (`IsResultLine`), so the
text of a run with the log on is that of a run with the log off once the marked lines are deleted.
-/

namespace PingCodec.Cli

open Outcome

/-! ## The lines of the debug log -/

theorem debugLine_eq (time message : String) (details : Option Json) :
    debugLine time message details =
      debugMark time ++ (message ++ details.elim "" fun j => " " ++ j.compact) := by
  rw [debugMark, ← String.append_assoc]
  rfl

theorem line_encoding (time : String) (ack : Bool) :
    (Event.encoding ack payloadSize).line time =
      debugMark time ++ ("encoding PING; ack=" ++ Json.boolText ack ++ " len=8") := by
  rw [Event.line, debugLine_eq]
  cases ack <;> rfl

theorem CommandError.name_eq (e : CommandError) :
    e.name = "FrameError" ∨ e.name = "RangeError" ∨ e.name = "Error" := by
  cases e with
  | frame e => exact .inl rfl
  | entry e => exact .inr (.inl rfl)
  | conflict | drawsExhausted => exact .inr (.inr rfl)

theorem line_commandFailed (time : String) (e : CommandError) :
    (Event.commandFailed e.name).line time =
      debugMark time ++ ("command failed \x7b\"error\":\"" ++ e.name ++ "\"\x7d") := by
  rw [Event.line, debugLine_eq]
  obtain h | h | h := e.name_eq <;> rw [h] <;> rfl

/-! ## The lines of results -/

theorem isResultLine_ofBytes (bs : Bytes) : IsResultLine (Hex.ofBytes bs) := by
  have digits : '\n' ∉ Hex.lowerDigits ∧ '[' ∉ Hex.lowerDigits := by decide
  exact ⟨fun mem => digits.1 (Hex.mem_ofBytes mem),
    fun opening => digits.2 (Hex.mem_ofBytes (List.mem_of_mem_head? opening))⟩

/-- The tag of a payload is a byte, and is written in digits. -/
theorem newline_not_mem_text_ofByte (b : UInt8) : '\n' ∉ (Number.ofByte b).text.toList := by
  have small : b.toNat < 256 := b.toNat_lt
  rw [Number.ofByte, Number.text_ofNat (Nat.lt_trans small (by norm_num))]
  intro newline
  have digit := Nat.isDigit_of_mem_toDigits (by decide) (by decide) (Nat.toList_repr ▸ newline)
  exact absurd digit (by decide)

theorem isResultLine_classify (p : Payload) : IsResultLine p.classify.text := by
  rw [Payload.classify, Entries.classify]
  split
  · decide
  · split
    · rename_i tag found
      rw [Entries.userTag?] at found
      split at found
      · obtain rfl := Option.some.inj found
        rw [Payload.getElem_entries]
        exact @IsResultLine.append "user:" _ (by decide) (by decide) (newline_not_mem_text_ofByte _)
      · cases found
    · decide

theorem isResultLine_description (ack : Bool) (p : Payload) :
    ∀ line ∈ (Ping.mk ack p.entries).description, IsResultLine line := by
  have ackLine : IsResultLine ("ack: " ++ Json.boolText ack) := by
    cases ack <;> decide
  have payloadLine : IsResultLine ("payload: " ++ Hex.ofBytes p.toBytes) :=
    IsResultLine.append (by decide) (by decide) (isResultLine_ofBytes _).whole
  have classLine : IsResultLine ("class: " ++ p.classify.text) :=
    IsResultLine.append (by decide) (by decide) (isResultLine_classify p).whole
  rw [Ping.description_entries]
  simp only [List.forall_mem_cons, ackLine, payloadLine, classLine, true_and]
  exact List.forall_mem_nil _

theorem map_eq_ok_iff {ε α β : Type} {f : α → β} {x : Except ε α} {b : β} :
    x.map f = .ok b ↔ ∃ a, x = .ok a ∧ f a = b := by
  cases x <;> simp [Except.map]

theorem isResultLine_output {a : Action} {draws : List Payload} {lines : List String}
    (h : a.output draws = .ok lines) : ∀ line ∈ lines, IsResultLine line := by
  cases a with
  | encode request =>
    obtain ⟨drawn, -, rfl⟩ := map_eq_ok_iff.1 h
    exact List.forall_mem_singleton.2 (isResultLine_ofBytes _)
  | decode frame =>
    obtain ⟨p, read, rfl⟩ := map_eq_ok_iff.1 h
    obtain ⟨-, rfl⟩ := Ping.ofFrame_eq_ok_iff.1 (Session.mapError_eq_ok_iff.1 read)
    exact isResultLine_description _ _
  | classify payload =>
    obtain ⟨p, -, rfl⟩ := map_eq_ok_iff.1 h
    exact List.forall_mem_singleton.2 (isResultLine_classify p)

theorem isResultLine_settled {o : Outcome} (h : Settled o) :
    ∃ lines : List String, o.stdout = lines.map .text ∧ ∀ line ∈ lines, IsResultLine line := by
  cases h with
  | version => exact ⟨_, rfl, by decide⟩
  | programHelp => exact ⟨_, rfl, isResultLine_programPage⟩
  | commandHelp c => exact ⟨_, rfl, isResultLine_commandPage c⟩
  | usage e | noCommand => exact ⟨[], rfl, List.forall_mem_nil _⟩

/-! ## Accounts -/

/-- What a run comes to, whether its log is on or off. -/
structure Account where
  exit : Nat
  /-- What the log says, without the marks. -/
  notes : List String
  lines : List String
  complaint : List String

namespace Account

/-- What is seen of a run that comes to this. -/
def seen (time : String) (log : Logger) (r : Account) : Nat × String × String :=
  (r.exit,
    joinLines ((if log.enabled then r.notes.map (debugMark time ++ ·) else []) ++ r.lines),
    joinLines r.complaint)

/-- That the debug lines can be told from the others. -/
structure Clear (r : Account) : Prop where
  notes : ∀ note ∈ r.notes, '\n' ∉ note.toList
  lines : ∀ line ∈ r.lines, IsResultLine line

theorem Clear.deleteDebug_seen {r : Account} (clear : r.Clear) {time : String}
    (oneLine : '\n' ∉ time.toList) (log : Logger) :
    deleteDebug time (r.seen time log).2.1 = joinLines r.lines := by
  rw [seen]
  split
  · exact deleteDebug_joinLines oneLine clear.notes clear.lines
  · exact @deleteDebug_joinLines _ oneLine [] _ (List.forall_mem_nil _) clear.lines

end Account

/-- What the log says of an action that succeeds. -/
def Action.notes : Action → List String
  | encode request => ["encoding PING; ack=" ++ Json.boolText request.ack ++ " len=8"]
  | decode _ | classify _ => []

/-- What an action comes to. -/
def Action.account (draws : List Payload) (a : Action) : Account :=
  match a.output draws with
  | .ok lines => ⟨0, a.notes, lines, []⟩
  | .error e => ⟨1, ["command failed \x7b\"error\":\"" ++ e.name ++ "\"\x7d"], [], [e.line]⟩

theorem render_record {time note : String} {event : Event}
    (h : event.line time = debugMark time ++ note) (log : Logger) :
    ((log.record event).map Line.debug).map (Line.render time) =
      if log.enabled then [note].map (debugMark time ++ ·) else [] := by
  rw [Logger.record]
  split
  · exact congrArg ([·]) h
  · rfl

theorem Action.render_announces (time : String) (log : Logger) (a : Action) :
    ((a.announces.flatMap log.record).map Line.debug).map (Line.render time) =
      if log.enabled then a.notes.map (debugMark time ++ ·) else [] := by
  cases a with
  | encode request =>
    rw [announces, List.flatMap_singleton]
    exact render_record (line_encoding time request.ack) log
  | decode frame | classify payload => exact (ite_self _).symm

theorem Action.seen_perform (time : String) (log : Logger) (draws : List Payload) (a : Action) :
    (finish log (a.perform log draws)).seen time = (a.account draws).seen time log := by
  cases h : a.output draws with
  | ok lines =>
    rw [finish_of_output_ok log h, account, h]
    apply seen_of_stdout
    rw [List.map_append, render_texts, render_announces]
  | error e =>
    rw [finish_of_output_error log h, account, h]
    apply seen_of_stdout
    rw [render_record (line_commandFailed time e), List.append_nil]

theorem Action.clear_account (draws : List Payload) (a : Action) : (a.account draws).Clear := by
  rw [account]
  split
  · rename_i lines h
    refine ⟨?_, isResultLine_output h⟩
    cases a with
    | encode request =>
      have whole (ack : Bool) :
          '\n' ∉ ("encoding PING; ack=" ++ Json.boolText ack ++ " len=8").toList := by
        cases ack <;> decide
      exact List.forall_mem_singleton.2 (whole _)
    | decode frame | classify payload => exact List.forall_mem_nil _
  · rename_i e _
    refine ⟨List.forall_mem_singleton.2 ?_, List.forall_mem_nil _⟩
    obtain h | h | h := e.name_eq <;> rw [h] <;> decide

/-! ## Runs -/

/-- What a command line comes to: an outcome that is settled, or what an action comes to. -/
inductive ComesTo (draws : List Payload) : Course → Account → Prop where
  | settled {o : Outcome} {lines : List String} (h : Settled o) (stdout : o.stdout = lines.map .text) :
      ComesTo draws (.settled o) ⟨o.exit, [], lines, o.stderr⟩
  | action (a : Action) : ComesTo draws (.action a) (a.account draws)

section

variable {read : List String → CommandLine} {draws : List Payload} {arguments : List String}

theorem exists_comesTo (conventions : Conventions read) (draws : List Payload)
    (arguments : List String) :
    ∃ r : Account, r.Clear ∧ ComesTo draws (read arguments).course r := by
  cases course : (read arguments).course with
  | settled o =>
    have settled := conventions.settled course
    obtain ⟨lines, stdout, results⟩ := isResultLine_settled settled
    exact ⟨_, ⟨List.forall_mem_nil _, results⟩, .settled settled stdout⟩
  | action a => exact ⟨_, a.clear_account draws, .action a⟩

theorem ComesTo.seen_run {r : Account} (comes : ComesTo draws (read arguments).course r)
    {env : Environment} (same : env.draws = draws) (time : String) :
    (runWith read env arguments).seen time = r.seen time ((read arguments).logger env) := by
  subst same
  rw [runWith, CommandLine.execute]
  generalize (read arguments).course = course at comes
  cases comes with
  | @settled o lines h stdout =>
    show o.seen time = _
    rw [seen_of_stdout (by rw [stdout, render_texts])]
    simp [Account.seen]
  | action a => exact Action.seen_perform time _ _ a

/-- What is left of a run when the marked lines are deleted does not depend on the log. -/
theorem ComesTo.deleteDebug_run {r : Account} (comes : ComesTo draws (read arguments).course r)
    (clear : r.Clear) {env : Environment} (same : env.draws = draws) {time : String}
    (oneLine : '\n' ∉ time.toList) :
    (runWith read env arguments).exit = r.exit ∧
      (runWith read env arguments).stderrText = joinLines r.complaint ∧
      deleteDebug time ((runWith read env arguments).stdoutText time) = joinLines r.lines := by
  have seen := comes.seen_run same time
  obtain ⟨exit, stdout, stderr⟩ : (runWith read env arguments).exit = r.exit ∧
      (runWith read env arguments).stdoutText time =
        (r.seen time ((read arguments).logger env)).2.1 ∧
      (runWith read env arguments).stderrText = joinLines r.complaint := by
    simpa only [Outcome.seen, Account.seen, Prod.mk.injEq] using seen
  exact ⟨exit, stderr, stdout ▸ clear.deleteDebug_seen oneLine _⟩

/-- The flag does what the variable does, wherever it stands before the end of the options. -/
theorem runWith_insert_verbose (conventions : Conventions read) (draws : List Payload)
    {front : List String}
    (before : ∀ a ∈ front, (readArgument programOptions a).2 ≠ .endOfOptions) (rest : List String)
    {v : String} (mem : v ∈ ["-v", "--verbose"]) :
    runWith read { draws := draws } (front ++ v :: rest) =
      runWith read { debug := some "1", draws := draws } (front ++ rest) := by
  rw [runWith, conventions.verbose before rest mem]
  rfl

end

/-- The debug log changes nothing but what is printed in marked lines. -/
theorem debug_log_transparent :
    Conventions .ofArguments ∧
    ∀ read, Conventions read → ∀ time : String, '\n' ∉ time.toList →
    ∀ (draws : List Payload) (arguments : List String),
      let on : Environment := { debug := some "1", draws := draws }
      let off : Environment := { draws := draws }
      runWith read on arguments = runWith read off ("-v" :: arguments) ∧
      (∀ front rest, arguments = front ++ rest →
        (∀ a ∈ front, (readArgument programOptions a).2 ≠ .endOfOptions) →
        ∀ v ∈ ["-v", "--verbose"],
          runWith read off (front ++ v :: rest) = runWith read on arguments) ∧
      (∀ value, value ≠ "1" →
        runWith read { debug := some value, draws := draws } arguments =
          runWith read off arguments) ∧
      (∀ env : Environment, env.draws = draws →
        (runWith read on arguments).exit = (runWith read env arguments).exit ∧
        (runWith read on arguments).stderrText = (runWith read env arguments).stderrText ∧
        deleteDebug time ((runWith read on arguments).stdoutText time) =
          deleteDebug time ((runWith read env arguments).stdoutText time) ∧
        (env.debug ≠ some "1" → .verbose ∉ (scan programOptions false arguments).given →
          deleteDebug time ((runWith read on arguments).stdoutText time) =
            (runWith read env arguments).stdoutText time)) ∧
      ((∃ o, Settled o ∧ (∀ env, runWith read env arguments = o) ∧
          ∃ lines : List String, o.stdout = lines.map .text ∧
            ∀ line ∈ lines, line.startsWith (debugMark time) = false) ∨
        ∃ a : Action, (scan programOptions false arguments).operands.head? = some a.command.name ∧
          match a.output draws with
          | .ok lines =>
            (∀ line ∈ lines, line.startsWith (debugMark time) = false) ∧
            (runWith read on arguments).seen time =
              (0, joinLines ((match a with
                | .encode request =>
                  [debugMark time ++ ("encoding PING; ack=" ++ Json.boolText request.ack ++ " len=8")]
                | .decode _ | .classify _ => []) ++ lines), "")
          | .error e =>
            (runWith read on arguments).seen time =
              (1, debugMark time ++ ("command failed \x7b\"error\":\"" ++ e.name ++ "\"\x7d") ++ "\n",
                e.line ++ "\n")) := by
  refine ⟨conventions_ofArguments,
    fun read conventions time oneLine draws arguments => ?_⟩
  intro on off
  obtain ⟨r, clear, comes⟩ := exists_comesTo conventions draws arguments
  refine ⟨?_, fun front rest split before v mem => ?_, fun value other => ?_, fun env same => ?_, ?_⟩
  · exact (runWith_insert_verbose conventions draws (List.forall_mem_nil _) arguments
      List.mem_cons_self).symm
  · rw [split]
    exact runWith_insert_verbose conventions draws before rest mem
  · have disabled : ({ debug := some value, draws := draws } : Environment).debugEnabled = false :=
      (debugEnabled_eq_false_iff _).2 (mt Option.some.inj other)
    rw [runWith, runWith, CommandLine.execute, CommandLine.execute, CommandLine.logger, disabled]
    rfl
  · obtain ⟨exit, stderr, stdout⟩ := comes.deleteDebug_run clear (rfl : on.draws = draws) oneLine
    obtain ⟨exit', stderr', stdout'⟩ := comes.deleteDebug_run clear same oneLine
    refine ⟨exit.trans exit'.symm, stderr.trans stderr'.symm, stdout.trans stdout'.symm,
      fun disabled quiet => ?_⟩
    have seen := comes.seen_run same time
    rw [logger_eq_off conventions disabled quiet] at seen
    exact stdout.trans (congrArg (fun x => x.2.1) seen).symm
  · -- With the variable set the log is on, so that all notes are printed.
    have seen_on : (runWith read on arguments).seen time = r.seen time ⟨true⟩ := comes.seen_run rfl time
    generalize course : (read arguments).course = c at comes
    cases comes with
    | @settled o lines h printed =>
      exact .inl ⟨o, h, fun env => by rw [runWith, CommandLine.execute, course], lines, printed,
        fun line mem => (clear.lines line mem).startsWith_eq_false time⟩
    | action a =>
      refine .inr ⟨a, conventions.named course, ?_⟩
      rw [seen_on, Action.account]
      cases output : a.output draws with
      | ok lines =>
        refine ⟨fun line mem => (isResultLine_output output line mem).startsWith_eq_false time, ?_⟩
        cases a <;> rfl
      | error e =>
        show (1, joinLines [_], joinLines [e.line]) = _
        rw [joinLines_singleton, joinLines_singleton]

/-- A response that is encoded with the log on. -/
theorem debug_log_transparent_ack :
    '\n' ∉ "12:00".toList ∧
    run { debug := some "1" } ["encode", "--ack"] = run {} ["-v", "encode", "--ack"] ∧
    (run { debug := some "1" } ["encode", "--ack"]).stdoutText "12:00" =
      "[12:00] [DEBUG] encoding PING; ack=true len=8\n0000080601000000000000000000000000\n" ∧
    deleteDebug "12:00"
        "[12:00] [DEBUG] encoding PING; ack=true len=8\n0000080601000000000000000000000000\n" =
      "0000080601000000000000000000000000\n" := by
  have oneLine : '\n' ∉ "12:00".toList := by decide
  obtain ⟨flag, -, -, plain, -⟩ := debug_log_transparent.2 .ofArguments conventions_ofArguments
    "12:00" oneLine [] ["encode", "--ack"]
  obtain ⟨-, -, -, deleted⟩ := plain {} rfl
  have printed : (run { debug := some "1" } ["encode", "--ack"]).stdoutText "12:00" =
      "[12:00] [DEBUG] encoding PING; ack=true len=8\n0000080601000000000000000000000000\n" := by
    decide +kernel
  refine ⟨oneLine, flag, printed, ?_⟩
  rw [← printed]
  exact (deleted (by decide) (by decide)).trans (by decide +kernel)

end PingCodec.Cli
