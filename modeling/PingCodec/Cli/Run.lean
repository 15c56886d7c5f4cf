import PingCodec.Cli.CommandLine

/-!
# Running the program

A run reads the command line and carries out what it asks for.  The environment counts only through
the switch of the debug log and the random draws.
-/

namespace PingCodec.Cli

/-- What a run depends on besides its arguments. -/
structure Environment where
  /-- The value of the variable that switches the debug log on, if it is set. -/
  debug : Option String := none
  draws : List Payload := []

def Environment.debugEnabled (env : Environment) : Bool := env.debug == some "1"

namespace CommandLine

/-- The debug log of a run. -/
def logger (line : CommandLine) (env : Environment) : Logger := ⟨env.debugEnabled || line.verbose⟩

def execute (line : CommandLine) (env : Environment) : Outcome :=
  match line.course with
  | .settled o => o
  | .action a => finish (line.logger env) (a.perform (line.logger env) env.draws)

end CommandLine

/-- Run the program with some way to read its command line. -/
def runWith (read : List String → CommandLine) (env : Environment) (arguments : List String) :
    Outcome :=
  (read arguments).execute env

def run (env : Environment) (arguments : List String) : Outcome :=
  runWith .ofArguments env arguments

end PingCodec.Cli
