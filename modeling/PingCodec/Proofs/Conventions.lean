import PingCodec.Cli.Run
import PingCodec.Proofs.Actions
import PingCodec.Proofs.Tokens

/-!
# Conventions of command lines

What a run prints rests on few facts about the way in which its command line is read, and `Conventions`
lists them: what comes out without an action, where a hex text and the options of the encode command may
stand, and what the flag for the debug log does.  The parser of the program keeps to all of them
(`conventions_ofArguments`); what is proved of runs elsewhere holds with any other one that does.  Where
an action is asked for, all further questions about a run are questions about the result of the action
(`runWith_of_action`).
-/

namespace PingCodec.Cli

/-! ## The facts -/

/-- The outcomes of command lines that ask for no action. -/
inductive Settled : Outcome → Prop where
  | version : Settled (.success [programVersion])
  | programHelp : Settled (.success programPage.lines)
  | commandHelp (c : Command) : Settled (.success c.page.lines)
  | usage (e : UsageError) : Settled e.outcome
  | noCommand : Settled (.failure programPage.lines)

def Action.command : Action → Command
  | encode _ => .encode
  | decode _ => .decode
  | classify _ => .classify

/-- What a program relies on in the way its command lines are read. -/
structure Conventions (read : List String → CommandLine) : Prop where
  /-- Without an action there comes out the version, a help page or a complaint. -/
  settled {arguments : List String} {o : Outcome} (h : (read arguments).course = .settled o) :
    Settled o
  /-- The first word names the command. -/
  named {arguments : List String} {a : Action} (h : (read arguments).course = .action a) :
    (scan programOptions false arguments).operands.head? = some a.command.name
  /-- A word behind the name of a command that takes a hex text is that text. -/
  decode {text : String} (word : IsWord text) :
    read ["decode", text] = ⟨false, .ofHex .decode text⟩
  classify {text : String} (word : IsWord text) :
    read ["classify", text] = ⟨false, .ofHex .classify text⟩
  /-- The options of the encode command are taken in their order, whatever their number. -/
  encode (tokens : List Token) :
    read ("encode" :: tokens.flatMap Token.arguments) =
      ⟨false, .ofOptions (tokens.map Token.occurrence) fun request => .action (.encode request)⟩
  /-- The flag for the debug log switches it on and does nothing else, wherever it stands before the
  end of the options. -/
  verbose {front : List String}
    (before : ∀ a ∈ front, (readArgument programOptions a).2 ≠ .endOfOptions) (rest : List String)
    {v : String} (mem : v ∈ ["-v", "--verbose"]) :
    read (front ++ v :: rest) = ⟨true, (read (front ++ rest)).course⟩
  /-- Nothing else switches the debug log on. -/
  quiet {arguments : List String} (h : .verbose ∉ (scan programOptions false arguments).given) :
    (read arguments).verbose = false

/-! ## What is settled -/

theorem settled_preliminaries {κ : Type} {c : Command} {s : Scan κ} {o : Outcome}
    (h : preliminaries c s = some o) : Settled o := by
  unfold preliminaries at h
  split at h
  · exact Option.some.inj h ▸ .usage _
  · cases h
  · split at h
    · exact Option.some.inj h ▸ .commandHelp c
    · exact Option.some.inj h ▸ .usage _

theorem settled_helpFor (operands : List String) : Settled (helpFor operands) := by
  unfold helpFor
  split
  · exact .programHelp
  · split
    · exact .programHelp
    · split
      · exact .commandHelp _
      · exact .noCommand

theorem settled_withoutCommand (operands unknown : List String) :
    Settled (withoutCommand operands unknown) := by
  unfold withoutCommand
  split
  · exact .programHelp
  · split
    · exact .usage _
    · exact .usage _
    · exact .noCommand

namespace Course

/-- That a course is settled as it may be, or else an action of the command that a word names. -/
inductive Proper (name : Option String) : Course → Prop
  | settled {o : Outcome} (h : Settled o) : Proper name (.settled o)
  | action (a : Action) (named : name = some a.command.name) : Proper name (.action a)

variable {name : Option String}

theorem Proper.unlessSettled {κ : Type} (c : Command) (s : Scan κ) {course : Course}
    (h : course.Proper name) : (Course.unlessSettled c s course).Proper name := by
  unfold Course.unlessSettled
  cases seen : preliminaries c s with
  | none => exact h
  | some o => exact .settled (settled_preliminaries seen)

theorem proper_ofHex {action : Bytes → Action}
    (named : ∀ bs, name = some (action bs).command.name) (text : String) :
    (ofHex action text).Proper name := by
  unfold ofHex
  cases parseHex text with
  | error e => exact .settled (.usage _)
  | ok bs => exact .action _ (named bs)

theorem proper_ofEncode (arguments : List String) :
    (ofEncode arguments).Proper (some Command.encode.name) := by
  unfold ofEncode ofOptions
  dsimp only
  cases (scan encodeOptions false arguments).occurrences.foldlM EncodeRequest.note {} with
  | error e => exact .settled (.usage e)
  | ok request => exact .unlessSettled _ _ (.action _ rfl)

theorem proper_ofHexCommand {action : Bytes → Action} {c : Command}
    (performs : ∀ bs, (action bs).command = c) (operands arguments : List String) :
    (ofHexCommand c action operands arguments).Proper (some c.name) := by
  apply Proper.unlessSettled
  split
  · exact .settled (.usage _)
  · exact proper_ofHex (fun bs => by rw [performs]) _

theorem proper_ofCommand (c : Command) (operands arguments : List String) :
    (ofCommand c operands arguments).Proper (some c.name) := by
  cases c with
  | encode => exact proper_ofEncode arguments
  | decode =>
    have performs (bs : Bytes) : (Action.decode bs).command = .decode := rfl
    exact proper_ofHexCommand performs operands arguments
  | classify =>
    have performs (bs : Bytes) : (Action.classify bs).command = .classify := rfl
    exact proper_ofHexCommand performs operands arguments

end Course

theorem name_of_ofName? {name : String} {c : Command} (h : Command.ofName? name = some c) :
    c.name = name := by
  rw [Command.ofName?] at h
  exact eq_of_beq (List.find?_some h :)

/-! ## Reading command lines -/

namespace CommandLine

theorem proper_courseOf (s : Scan ProgramOption) : (courseOf s).Proper s.operands.head? := by
  unfold courseOf
  split
  · exact .settled .version
  · split
    · exact .settled (settled_withoutCommand _ _)
    · rename_i name operands sorted
      rw [sorted, List.head?_cons]
      split
      · rename_i c found
        exact name_of_ofName? found ▸ Course.proper_ofCommand c _ _
      · split
        · exact .settled (settled_helpFor _)
        · exact .settled (settled_withoutCommand _ _)

/-- Of the options of the program the course hangs on the wish for the version alone. -/
theorem courseOf_congr {s t : Scan ProgramOption} (version : .version ∈ t.given ↔ .version ∈ s.given)
    (operands : t.operands = s.operands) (unknown : t.unknown = s.unknown) :
    courseOf t = courseOf s := by
  unfold Scan.given at version
  unfold courseOf
  rw [operands, unknown]
  simp only [version]

/-- A command line that begins with the name of a command goes on with what is left over for it. -/
theorem ofArguments_command (c : Command) {rest operands unknown : List String}
    (sorted : scan programOptions false rest = { operands := operands, unknown := unknown }) :
    ofArguments (c.name :: rest) = ⟨false, .ofCommand c operands unknown⟩ := by
  have name : Command.ofName? c.name = some c := by cases c <;> rfl
  have word : IsWord c.name := by cases c <;> decide
  rw [ofArguments, scan_word false word, sorted]
  simp only [courseOf, Scan.withWords, Bool.false_eq_true, if_false, List.map_nil, List.not_mem_nil,
    List.singleton_append, name, decide_false]

theorem ofArguments_word (c : Command) {text : String} (word : IsWord text) :
    ofArguments [c.name, text] = ⟨false, .ofCommand c [text] []⟩ :=
  ofArguments_command c (scan_word false word [])

theorem readArgument_verbose {v : String} (mem : v ∈ ["-v", "--verbose"]) :
    readArgument programOptions v = ([programOptions[1]], .none) := by
  simp only [List.mem_cons, List.not_mem_nil, or_false] at mem
  obtain rfl | rfl := mem
  · rfl
  · rfl

end CommandLine

open CommandLine in
/-- The parser of the program keeps to the conventions. -/
theorem conventions_ofArguments : Conventions .ofArguments where
  settled {arguments o} h := by
    have proper := proper_courseOf (scan programOptions false arguments)
    rw [show courseOf _ = _ from h] at proper
    cases proper with
    | settled settled => exact settled
  named {arguments a} h := by
    have proper := proper_courseOf (scan programOptions false arguments)
    rw [show courseOf _ = _ from h] at proper
    cases proper with
    | action a named => exact named
  decode word := ofArguments_word .decode word
  classify word := ofArguments_word .classify word
  encode tokens := by
    rw [← ofEncode_tokens]
    exact ofArguments_command .encode (Token.scan_programOptions_tokens tokens false)
  verbose {front} before rest v mem := by
    have adds : Adds ProgramOption.verbose _ _ :=
      adds_scan (by decide) (readArgument_verbose mem) before false rest
    -- Of the options of the program only the wish for the version decides the course.
    have version : .version ∈ (scan programOptions false (front ++ v :: rest)).given ↔
        .version ∈ (scan programOptions false (front ++ rest)).given := by
      rw [adds.given]
      simp
    have given := (adds.given .verbose).2 (.inl rfl)
    have course := courseOf_congr version adds.operands adds.unknown
    exact congrArg₂ CommandLine.mk (decide_eq_true given) course
  quiet h := decide_eq_false h

/-! ## Runs without the debug log -/

section

variable {read : List String → CommandLine} {env : Environment} {arguments : List String}

theorem debugEnabled_eq_false_iff (env : Environment) :
    env.debugEnabled = false ↔ env.debug ≠ some "1" := by
  simp [Environment.debugEnabled]

/-- The log of a run is off unless the variable or the flag switches it on. -/
theorem logger_eq_off (conventions : Conventions read) (off : env.debug ≠ some "1")
    (quiet : .verbose ∉ (scan programOptions false arguments).given) :
    (read arguments).logger env = {} := by
  rw [CommandLine.logger, (debugEnabled_eq_false_iff env).2 off, conventions.quiet quiet]
  rfl

theorem runWith_of_settled {verbose : Bool} {o : Outcome}
    (course : read arguments = ⟨verbose, .settled o⟩) : runWith read env arguments = o := by
  rw [runWith, course]
  rfl

/-- With the debug log off an action prints its result, or else the one line that says what is wrong. -/
theorem runWith_of_action (off : env.debugEnabled = false) {a : Action}
    (course : read arguments = ⟨false, .action a⟩) :
    runWith read env arguments =
      match a.output env.draws with
      | .ok lines => .success lines
      | .error e => .failure [e.line] := by
  have carriedOut : runWith read env arguments = finish {} (a.perform {} env.draws) := by
    rw [runWith, course, CommandLine.execute, CommandLine.logger, off]
    rfl
  rw [carriedOut]
  cases output : a.output env.draws with
  | ok lines =>
    rw [finish_of_output_ok {} output]
    cases a <;> rfl
  | error e =>
    rw [finish_of_output_error {} output]
    rfl

end

end PingCodec.Cli
