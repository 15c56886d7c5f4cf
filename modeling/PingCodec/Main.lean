import PingCodec.Cli.Run
import Std.Time.Format

/-!
# The program

Hands the arguments, the environment, the time and random bytes to a run, and prints what the run
says.
-/

namespace PingCodec

/-- The time for debug lines: date and time of day to the millisecond, in universal time. -/
def currentTime : IO String := do
  let now := Std.Time.DateTime.ofTimestamp (← Std.Time.Timestamp.now) .UTC
  return now.format "uuuu-MM-dd'T'HH:mm:ss.SSS'Z'"

def randomDraws : IO (List Payload) := do
  let draws ← (List.range 8).mapM fun _ => IO.getRandomBytes 8
  return draws.filterMap fun draw => (Payload.ofBytes draw.toList).toOption

end PingCodec

open PingCodec in
/-- Run the program on its arguments. -/
def main (arguments : List String) : IO UInt32 := do
  let env : Cli.Environment := { debug := ← IO.getEnv "H2PING_DEBUG", draws := ← randomDraws }
  let outcome := Cli.run env arguments
  IO.print (outcome.stdoutText (← currentTime))
  IO.eprint outcome.stderrText
  return outcome.exit.toUInt32
