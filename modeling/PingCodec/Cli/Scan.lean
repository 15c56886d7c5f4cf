/-!
# Scanning arguments

A scan goes through the arguments from left to right and sorts them by a table of options.  What is
not in the table is left over: words are operands, and from the first option that is not known on
everything that is left over is kept for whoever knows that option.

This is the work of the library for command lines that the program is built on, not of the program.
-/

namespace PingCodec.Cli

/-! ## Options -/

/-- An option; `key` says which one it is to the command that has it. -/
structure OptionSpec (κ : Type) where
  key : κ
  short : Option Char
  long : String
  /-- What its value is called, if it takes one. -/
  value : Option String
  description : String

namespace OptionSpec

variable {κ : Type}

/-- How the option is written. -/
def flags (o : OptionSpec κ) : String :=
  (o.short.elim "" fun c => String.ofList ['-', c, ',', ' ']) ++ "--" ++ o.long ++
    o.value.elim "" fun v => " <" ++ v ++ ">"

/-- Whether the option is written as a dash and these characters. -/
def isWritten (o : OptionSpec κ) (cs : List Char) : Bool :=
  o.short.any (fun c => cs == [c]) || cs == '-' :: o.long.toList

end OptionSpec

/-- An option among the arguments, with its value if it takes one. -/
structure Occurrence (κ : Type) where
  option : OptionSpec κ
  value : Option String := none

/-! ## One argument -/

/-- What is to become of an argument after the flags at its front were taken off. -/
inductive Remainder (κ : Type) where
  | none
  | endOfOptions
  | awaits (o : OptionSpec κ)
  | carries (o : OptionSpec κ) (value : String)
  | word (text : String)
  | unknown (text : String)

variable {κ : Type}

/-- Read two dashes with a name, an equals sign and a value, or else an unknown option.  Given are
the characters after the first dash. -/
def readAssignment (table : List (OptionSpec κ)) (cs : List Char) : Remainder κ :=
  let name := cs.takeWhile (· ≠ '=')
  let unread := String.ofList ('-' :: cs)
  match cs.dropWhile (· ≠ '='), table.find? fun o => name == '-' :: o.long.toList with
  | '=' :: value, some o =>
    if o.value.isSome then .carries o (String.ofList value) else .unknown unread
  | _, _ => .unknown unread

/-- Read an argument that begins with a dash; given are the characters after it.  A known letter
with more behind it is either an option with its value or a flag, and behind a flag the rest is
read as if it had a dash of its own. -/
def readDashed (table : List (OptionSpec κ)) : List Char → List (OptionSpec κ) × Remainder κ
  | [] => ([], .word "-")
  | c :: rest =>
    if c :: rest = ['-'] then ([], .endOfOptions)
    else
      match table.find? (·.isWritten (c :: rest)) with
      | some o => if o.value.isSome then ([], .awaits o) else ([o], .none)
      | none =>
        if rest = [] ∨ c = '-' then ([], readAssignment table (c :: rest))
        else
          match table.find? fun o => o.short == some c with
          | some o =>
            if o.value.isSome then ([], .carries o (String.ofList rest))
            else
              let (flags, remainder) := readDashed table rest
              (o :: flags, remainder)
          | none => ([], readAssignment table (c :: rest))

/-- Read an argument: the flags at its front and what is left. -/
def readArgument (table : List (OptionSpec κ)) (argument : String) :
    List (OptionSpec κ) × Remainder κ :=
  match argument.toList with
  | '-' :: cs => readDashed table cs
  | _ => ([], .word argument)

/-! ## All arguments -/

/-- The arguments, sorted. -/
structure Scan (κ : Type) where
  occurrences : List (Occurrence κ) := []
  /-- The words before any unknown option, and those after the end of the options. -/
  operands : List String := []
  /-- The first unknown option and all that is left over behind it. -/
  unknown : List String := []
  /-- The option at which the arguments ran out; the scan ends there. -/
  missing : Option (OptionSpec κ) := none

namespace Scan

def withOptions (s : Scan κ) (os : List (Occurrence κ)) : Scan κ :=
  { s with occurrences := os ++ s.occurrences }

/-- The scan with words that are left over in front. -/
def withWords (s : Scan κ) (afterUnknown : Bool) (texts : List String) : Scan κ :=
  if afterUnknown then { s with unknown := texts ++ s.unknown }
  else { s with operands := texts ++ s.operands }

end Scan

/-- Sort the arguments by a table of options.  The flag says whether an unknown option came before;
in that case the mark at the end of the options is left over as well. -/
def scan (table : List (OptionSpec κ)) (afterUnknown : Bool) : List String → Scan κ
  | [] => {}
  | argument :: rest =>
    let (flags, remainder) := readArgument table argument
    let flagged := flags.map fun o => ({ option := o } : Occurrence κ)
    match remainder with
    | .none => (scan table afterUnknown rest).withOptions flagged
    | .endOfOptions =>
      let words := if afterUnknown then "--" :: rest else rest
      (({} : Scan κ).withWords afterUnknown words).withOptions flagged
    | .carries o value => (scan table afterUnknown rest).withOptions (flagged ++ [⟨o, some value⟩])
    | .word text =>
      ((scan table afterUnknown rest).withWords afterUnknown [text]).withOptions flagged
    | .unknown text => ((scan table true rest).withWords true [text]).withOptions flagged
    | .awaits o =>
      match rest with
      | [] => { occurrences := flagged, missing := some o }
      | value :: rest => (scan table afterUnknown rest).withOptions (flagged ++ [⟨o, some value⟩])

end PingCodec.Cli
