import PingCodec.Cli.Argument
import PingCodec.Frame.Report
import PingCodec.Log

/-!
# Outcomes

What a run of the program leaves behind: an exit status and lines on two output streams.  Lines of
the debug log stand between the lines of output and are kept apart from them until they are printed.
-/

namespace PingCodec.Cli

/-! ## Outcomes -/

/-- A line of the first output stream. -/
inductive Line where
  | text (content : String)
  | debug (event : Event)
deriving DecidableEq

def Line.render (time : String) : Line → String
  | text content => content
  | debug event => event.line time

/-- What a run does. -/
structure Outcome where
  exit : Nat
  stdout : List Line := []
  stderr : List String := []
deriving DecidableEq

namespace Outcome

def joinLines (lines : List String) : String := String.join (lines.map (· ++ "\n"))

def stdoutText (time : String) (o : Outcome) : String := joinLines (o.stdout.map (Line.render time))

def stderrText (o : Outcome) : String := joinLines o.stderr

/-- A run that prints lines. -/
def success (lines : List String) : Outcome := { exit := 0, stdout := lines.map Line.text }

/-- A run that ends with a complaint. -/
def failure (complaint : List String) : Outcome := { exit := 1, stderr := complaint }

end Outcome

/-! ## Usage errors -/

/-- What is wrong with a command line. -/
inductive UsageError where
  | unknownOption (text : String)
  | unknownCommand (name : String)
  | missingArgument (name : String)
  | missingValue (flags : String)
  | badValue (flags value : String) (e : ArgumentError)
  | badArgument (name value : String) (e : ArgumentError)
deriving DecidableEq

def quoted (text : String) : String := "'" ++ text ++ "'"

def UsageError.message : UsageError → String
  | unknownOption text => "unknown option " ++ quoted text
  | unknownCommand name => "unknown command " ++ quoted name
  | missingArgument name => "missing required argument " ++ quoted name
  | missingValue flags => "option " ++ quoted flags ++ " argument missing"
  | badValue flags value e =>
    "option " ++ quoted flags ++ " argument " ++ quoted value ++ " is invalid. " ++ e.message
  | badArgument name value e =>
    "command-argument value " ++ quoted value ++ " is invalid for argument " ++ quoted name ++
      ". " ++ e.message

def UsageError.outcome (e : UsageError) : Outcome := .failure [errorLine e.message]

end PingCodec.Cli
