import PingCodec.Cli.Page
import PingCodec.Cli.Scan

/-!
# Commands

The commands of the program with their options and arguments, and the help pages that follow from
these tables.
-/

namespace PingCodec.Cli

def programName : String := "h2ping"

def programVersion : String := "0.1.0"

/-! ## Commands -/

inductive Command where
  | encode
  | decode
  | classify
deriving DecidableEq

namespace Command

/-- The commands in the order of the help page. -/
def all : List Command := [encode, decode, classify]

def name : Command → String
  | encode => "encode"
  | decode => "decode"
  | classify => "classify"

def ofName? (name : String) : Option Command := all.find? fun c => c.name == name

/-- What a command does. -/
def description : Command → String
  | encode => "Encode a PING frame (probe by default)"
  | decode => "Decode a PING frame (header and payload)"
  | classify => "Classify an 8-byte PING payload as shutdown, user:<id> or ordinary"

/-- The arguments of a command, each with its description. -/
def arguments : Command → List (String × String)
  | encode => []
  | decode => [("hex", "Frame bytes as hex; whitespace between bytes is allowed")]
  | classify => [("hex", "Payload bytes as hex")]

end Command

/-- The name of the command that shows help. -/
def helpCommand : String := "help"

/-! ## Options -/

/-- The options of the program itself, known before and after the name of a command. -/
inductive ProgramOption where
  | version
  | verbose
deriving DecidableEq

def programOptions : List (OptionSpec ProgramOption) :=
  [{ key := .version, short := some 'V', long := "version", value := none
     description := "output the version number" },
   { key := .verbose, short := some 'v', long := "verbose", value := none
     description := "Print debug logs (default: false)" }]

inductive EncodeOption where
  | ack
  | payload
  | shutdown
  | user
  | random
deriving DecidableEq

def encodeOptions : List (OptionSpec EncodeOption) :=
  [{ key := .ack, short := some 'a', long := "ack", value := none
     description := "Encode a response (ACK flag set) (default: false)" },
   { key := .payload, short := some 'p', long := "payload", value := some "hex"
     description := "Payload as 8 bytes of hex" },
   { key := .shutdown, short := none, long := "shutdown", value := none
     description := "Use the graceful-shutdown payload" },
   { key := .user, short := some 'u', long := "user", value := some "id"
     description := "Use the user ping payload with this tag (0 or 1)" },
   { key := .random, short := some 'r', long := "random", value := none
     description := "Use a random keep-alive payload" }]

/-- The option that asks for help; every command has it. -/
def helpOption : OptionSpec Unit where
  key := ()
  short := some 'h'
  long := "help"
  value := none
  description := "display help for command"

/-- Whether an argument asks for help. -/
def asksForHelp (argument : String) : Bool :=
  match argument.toList with
  | '-' :: cs => helpOption.isWritten cs
  | _ => false

/-! ## Help pages -/

def OptionSpec.item {κ : Type} (o : OptionSpec κ) : String × String := (o.flags, o.description)

namespace Command

/-- The lines of the options of a command in a help page. -/
def optionItems : Command → List (String × String)
  | encode => encodeOptions.map OptionSpec.item
  | decode | classify => []

/-- The arguments of a command as they are called for. -/
def argumentText (c : Command) : String :=
  String.join (c.arguments.map fun argument => " <" ++ argument.1 ++ ">")

/-- The command as the help page of the program lists it. -/
def item (c : Command) : String × String :=
  (c.name ++ (if c.optionItems.isEmpty then "" else " [options]") ++ c.argumentText, c.description)

def page (c : Command) : Page where
  usage := programName ++ " " ++ c.name ++ " [options]" ++ c.argumentText
  description := c.description
  sections :=
    (if c.arguments.isEmpty then [] else [⟨"Arguments", c.arguments⟩]) ++
      [⟨"Options", c.optionItems ++ [helpOption.item]⟩]

end Command

def programPage : Page where
  usage := programName ++ " [options] [command]"
  description := "Encode, decode and classify HTTP/2 PING frames"
  sections :=
    [⟨"Options", programOptions.map OptionSpec.item ++ [helpOption.item]⟩,
     ⟨"Commands", Command.all.map Command.item ++
       [(helpCommand ++ " [command]", helpOption.description)]⟩]

end PingCodec.Cli
