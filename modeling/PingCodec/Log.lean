import PingCodec.Json

/-!
# Debug log

The codec announces what it does as events.  A logger that is switched on turns each event into one
line; one that is switched off drops it.
-/

namespace PingCodec

/-- Something worth a debug line. -/
inductive Event where
  | encoding (ack : Bool) (size : Nat)
  | commandFailed (error : String)
deriving DecidableEq

namespace Event

def message : Event → String
  | encoding ack size => s!"encoding PING; ack={Json.boolText ack} len={size}"
  | commandFailed _ => "command failed"

def details? : Event → Option Json
  | encoding _ _ => none
  | commandFailed error => some (.object [("error", .string error)])

end Event

/-- A debug line: the time, the message and the details if there are any. -/
def debugLine (time message : String) (details : Option Json) : String :=
  s!"[{time}] [DEBUG] {message}" ++ details.elim "" fun j => " " ++ j.compact

def Event.line (time : String) (e : Event) : String := debugLine time e.message e.details?

/-! ## Loggers -/

/-- The switch of a debug log. -/
structure Logger where
  enabled : Bool := false
deriving DecidableEq

namespace Logger

/-- What the log keeps of an event. -/
def record (log : Logger) (e : Event) : List Event := if log.enabled then [e] else []

/-- The lines that the log prints for a message. -/
def debug (log : Logger) (time message : String) (details : Option Json) : List String :=
  if log.enabled then [debugLine time message details] else []

inductive Step where
  | setDebug (enabled : Bool)
  | debug (message : String) (details : Option Json)

/-- The logger after one use, and the lines that it printed. -/
def step (time : String) (log : Logger) : Step → Logger × List String
  | .setDebug enabled => (⟨enabled⟩, [])
  | .debug message details => (log, log.debug time message details)

/-- The lines that each of a series of uses prints. -/
def run (time : String) (log : Logger) : List Step → List (List String)
  | [] => []
  | s :: rest => (log.step time s).2 :: run time (log.step time s).1 rest

end Logger

end PingCodec
