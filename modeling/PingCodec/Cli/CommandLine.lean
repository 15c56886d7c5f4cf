import PingCodec.Cli.Action
import PingCodec.Cli.Command
import PingCodec.Cli.Scan

/-!
# Command lines

What a command line comes to: an action with its values, or something that needs none, such as a help
page or a complaint.  The options of the program are taken out first, wherever they stand; what is left
over goes to the command.

Reading command lines is the work of a library of its own that the program is built on.  The scan, the
help pages and this module stand for that library, as far as the tables of the program use it; the
program relies on little of it, and `runWith` takes another reader in its place.
-/

namespace PingCodec.Cli

/-- What comes of a command line. -/
inductive Course where
  /-- Nothing is left to be done but to print this. -/
  | settled (o : Outcome)
  | action (a : Action)

/-- A command line that was read. -/
structure CommandLine where
  /-- Whether the debug log is asked for. -/
  verbose : Bool
  course : Course

/-! ## Arguments of commands -/

/-- Note an option in a request; of an option that is repeated the last value counts. -/
def EncodeRequest.note (r : EncodeRequest) (o : Occurrence EncodeOption) :
    Except UsageError EncodeRequest :=
  let value := o.value.getD ""
  match o.option.key with
  | .ack => .ok { r with ack := true }
  | .shutdown => .ok { r with shutdown := some true }
  | .random => .ok { r with random := some true }
  | .payload =>
    match parseHex value with
    | .ok bs => .ok { r with payload := some bs }
    | .error e => .error (.badValue o.option.flags value e)
  | .user =>
    match parseUserTag value with
    | .ok tag => .ok { r with user := some tag }
    | .error e => .error (.badValue o.option.flags value e)

/-- What has to be seen to before a command is carried out: a value that is not there, a wish for
help, an option that nobody knows. -/
def preliminaries {κ : Type} (c : Command) (s : Scan κ) : Option Outcome :=
  match s.missing, s.unknown with
  | some o, _ => some (UsageError.missingValue o.flags).outcome
  | none, [] => none
  | none, first :: rest =>
    if (first :: rest).any asksForHelp then some (.success c.page.lines)
    else some (UsageError.unknownOption first).outcome

namespace Course

/-- Go on with an action unless its preliminaries settle the matter. -/
def unlessSettled {κ : Type} (c : Command) (s : Scan κ) (course : Course) : Course :=
  (preliminaries c s).elim course settled

/-- The action that takes a hex text, if the text is one. -/
def ofHex (action : Bytes → Action) (text : String) : Course :=
  match parseHex text with
  | .error e => .settled (UsageError.badArgument "hex" text e).outcome
  | .ok bs => .action (action bs)

/-- What the options of the encode command add up to, or else the first that is refused; `course` says
how to go on with a request. -/
def ofOptions (options : List (Occurrence EncodeOption)) (course : EncodeRequest → Course) : Course :=
  match options.foldlM EncodeRequest.note {} with
  | .error e => .settled e.outcome
  | .ok request => course request

def ofEncode (arguments : List String) : Course :=
  let s := scan encodeOptions false arguments
  ofOptions s.occurrences fun request => unlessSettled .encode s (.action (.encode request))

/-- A command that takes a hex text; words beyond it count for nothing. -/
def ofHexCommand (c : Command) (action : Bytes → Action) (operands arguments : List String) :
    Course :=
  let s : Scan Empty := scan [] false arguments
  unlessSettled c s <|
    match operands ++ s.operands with
    | [] => .settled (UsageError.missingArgument "hex").outcome
    | text :: _ => ofHex action text

/-- A command with its operands and with what else was left over for it. -/
def ofCommand (c : Command) (operands arguments : List String) : Course :=
  match c with
  | .encode => ofEncode arguments
  | .decode => ofHexCommand c .decode operands arguments
  | .classify => ofHexCommand c .classify operands arguments

end Course

/-! ## The program -/

/-- Show help for a command, or for the program if no command is named. -/
def helpFor : List String → Outcome
  | [] => .success programPage.lines
  | name :: _ =>
    if name = "" then .success programPage.lines
    else
      match Command.ofName? name with
      | some c => .success c.page.lines
      | none => .failure programPage.lines

/-- Do without a command: show help if that is asked for or if there is nothing to go by. -/
def withoutCommand (operands unknown : List String) : Outcome :=
  if unknown.any asksForHelp then .success programPage.lines
  else
    match operands, unknown with
    | name :: _, _ => (UsageError.unknownCommand name).outcome
    | [], text :: _ => (UsageError.unknownOption text).outcome
    | [], [] => .failure programPage.lines

namespace CommandLine

/-- What comes of the arguments once the options of the program are taken out of them. -/
def courseOf (s : Scan ProgramOption) : Course :=
  if .version ∈ s.occurrences.map (fun o => o.option.key) then .settled (.success [programVersion])
  else
    match s.operands with
    | [] => .settled (withoutCommand [] s.unknown)
    | name :: operands =>
      match Command.ofName? name with
      | some c => .ofCommand c operands s.unknown
      | none =>
        if name = helpCommand then .settled (helpFor operands)
        else .settled (withoutCommand (name :: operands) s.unknown)

def ofArguments (arguments : List String) : CommandLine :=
  let s := scan programOptions false arguments
  { verbose := .verbose ∈ s.occurrences.map fun o => o.option.key
    course := courseOf s }

end CommandLine

end PingCodec.Cli
