import PingCodec.Cli.Action
import PingCodec.Proofs.Ping

/-!
# What actions print

An action does all that can fail before it prints, line by line (`run_perform`).  So a failure finds
nothing printed (`failsFirst_perform`), and the first stream of an action that is carried out holds the
whole result with its debug lines in front, or else one debug line at most (`finish_of_output_ok`,
`finish_of_output_error`).
-/

namespace PingCodec.Cli

/-! ## Scripts -/

namespace Script

variable {α β : Type}

/-- That a script which fails has printed nothing by then. -/
def FailsFirst (script : Script α) : Prop :=
  ∀ printed e after, script.run printed = (.error e, after) → after = printed

theorem run_bind_of_ok {script : Script α} {printed after : List Line} {a : α}
    (first : script.run printed = (.ok a, after)) (rest : α → Script β) :
    (script >>= rest).run printed = (rest a).run after := by
  show (match script.run printed with
    | (result, after) => ExceptT.bindCont rest result after) = _
  rw [first]
  rfl

/-- Printing never fails, and what is printed stands behind what was there. -/
theorem run_forM_print (line : α → Line) (items : List α) (printed : List Line) :
    (items.forM fun item => print (line item)).run printed =
      (.ok (), printed ++ items.map line) := by
  induction items generalizing printed with
  | nil => exact congrArg (Prod.mk _) (List.append_nil _).symm
  | cons item items ih =>
    have first : (print (line item)).run printed = (.ok (), printed ++ [line item]) := rfl
    show (print (line item) >>= fun _ => items.forM fun item => print (line item)).run printed = _
    rw [run_bind_of_ok first, ih, List.append_assoc]
    rfl

end Script

namespace Action

/-! ## Results -/

/-- The lines that an action prints as its result. -/
def output (draws : List Payload) : Action → Except CommandError (List String)
  | encode request =>
    (request.resolve draws).map fun drawn =>
      [Hex.ofBytes (Ping.mk request.ack drawn.1.entries).frame]
  | decode frame => ((Ping.ofFrame (View.whole frame)).mapError .ofPing).map Ping.description
  | classify payload => ((Payload.ofBytes payload).mapError .frame).map fun p => [p.classify.text]

/-- What an action that succeeds announces before its result. -/
def announces : Action → List Event
  | encode request => [.encoding request.ack payloadSize]
  | decode _ | classify _ => []

variable (log : Logger) (draws : List Payload) (a : Action)

/-- An action fails with nothing printed, or announces and prints its whole result. -/
theorem run_perform (printed : List Line) :
    (a.perform log draws).run printed =
      match a.output draws with
      | .ok lines =>
        (.ok (), printed ++ (a.announces.flatMap log.record).map .debug ++ lines.map .text)
      | .error e => (.error e, printed) := by
  cases a with
  | encode request =>
    rw [perform, Cli.encode, output]
    cases request.resolve draws with
    | error e => rfl
    | ok drawn =>
      -- What is resolved is made of bytes, so the check of the entries lets it pass.
      show (liftM ((Ping.ofEntries request.ack drawn.1.entries).mapError CommandError.entry) >>=
        _ : Script Unit).run printed = _
      rw [Ping.ofEntries_entries]
      show (((log.record _).forM fun event => print (.debug event)) >>= _ : Script Unit).run printed = _
      rw [Script.run_bind_of_ok (Script.run_forM_print Line.debug _ printed)]
      rw [announces, List.flatMap_singleton]
      rfl
  | decode frame =>
    rw [perform, Cli.decode, output]
    cases Ping.ofFrame (View.whole frame) with
    | error e => rfl
    | ok p =>
      show (p.description.forM fun line => print (.text line)).run printed = _
      rw [Script.run_forM_print, announces, List.flatMap_nil, List.map_nil, List.append_nil]
      rfl
  | classify payload =>
    rw [perform, Cli.classify, output]
    cases Payload.ofBytes payload with
    | error e => rfl
    | ok p =>
      show (Except.ok (), printed ++ [Line.text p.classify.text]) = _
      rw [announces, List.flatMap_nil, List.map_nil, List.append_nil]
      rfl

theorem failsFirst_perform : (a.perform log draws).FailsFirst := by
  intro printed e after failed
  rw [run_perform] at failed
  cases output : a.output draws with
  | ok lines =>
    rw [output] at failed
    cases congrArg Prod.fst failed
  | error e' =>
    rw [output] at failed
    exact (congrArg Prod.snd failed).symm

end Action

/-! ## Outcomes -/

section

variable {a : Action} {draws : List Payload} (log : Logger)

theorem finish_of_output_ok {lines : List String} (h : a.output draws = .ok lines) :
    finish log (a.perform log draws) =
      { exit := 0
        stdout := (a.announces.flatMap log.record).map .debug ++ lines.map .text } := by
  rw [finish, Action.run_perform, h]
  rfl

theorem finish_of_output_error {e : CommandError} (h : a.output draws = .error e) :
    finish log (a.perform log draws) =
      { exit := 1
        stdout := (log.record (.commandFailed e.name)).map .debug
        stderr := [e.line] } := by
  rw [finish, Action.run_perform, h]
  rfl

end

end PingCodec.Cli
