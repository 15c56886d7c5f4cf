import PingCodec.Cli.Outcome
import PingCodec.Cli.Request
import PingCodec.Ping.Description
import PingCodec.Ping.Frame

/-!
# Actions

What the commands do.  A command prints its lines one after the other and can fail on the way; what it
has printed by then stays, and the failure is reported behind it.
-/

namespace PingCodec.Cli

/-! ## Scripts -/

/-- A piece of a command: it prints lines and can fail. -/
abbrev Script (α : Type) := ExceptT CommandError (StateM (List Line)) α

def print (line : Line) : Script Unit := modify (· ++ [line])

/-- Carry out a command.  A failure leaves a debug line behind what was printed before it, and one line
of complaint. -/
def finish (log : Logger) (script : Script Unit) : Outcome :=
  match script.run [] with
  | (.ok (), printed) => { exit := 0, stdout := printed }
  | (.error e, printed) =>
    { exit := 1
      stdout := printed ++ (log.record (.commandFailed e.name)).map .debug
      stderr := [e.line] }

/-! ## The commands -/

/-- Encode the PING that is asked for. -/
def encode (log : Logger) (draws : List Payload) (r : EncodeRequest) : Script Unit := do
  let (payload, _) ← r.resolve draws
  let ping ← (Ping.ofEntries r.ack payload.entries).mapError CommandError.entry
  let (frame, events) := ping.toFrame log
  events.forM fun event => print (.debug event)
  print (.text (Hex.ofBytes frame))

/-- Describe the PING whose frame is given. -/
def decode (frame : Bytes) : Script Unit := do
  let ping ← (Ping.ofFrame (View.whole frame)).mapError CommandError.ofPing
  ping.description.forM fun line => print (.text line)

/-- Name the class of the payload that is given. -/
def classify (payload : Bytes) : Script Unit := do
  let p ← (Payload.ofBytes payload).mapError CommandError.frame
  print (.text p.classify.text)

/-- A command with all that it is given. -/
inductive Action where
  | encode (request : EncodeRequest)
  | decode (frame : Bytes)
  | classify (payload : Bytes)

def Action.perform (log : Logger) (draws : List Payload) : Action → Script Unit
  | encode request => Cli.encode log draws request
  | decode frame => Cli.decode frame
  | classify payload => Cli.classify payload

end PingCodec.Cli
