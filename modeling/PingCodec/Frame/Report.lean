import PingCodec.Frame.Error

/-!
# Reporting frame errors

A reported frame error is a number and a text.  The number is that of an error code, but a report
can carry any number; what is asked of an unknown one has no answer.
-/

namespace PingCodec

def errorLine (message : String) : String := s!"error: {message}"

/-- A frame error as reported. -/
structure ErrorReport where
  code : Int
  message : String
deriving DecidableEq

namespace ErrorReport

/-- What a code number means, in a few words. -/
def describe (code : Int) : String :=
  match ErrorCode.ofCode? code with
  | some c => c.description
  | none => "Unknown frame error"

/-- The reason that goes with a code number. -/
def reasonFor? (code : Int) : Option Reason := (ErrorCode.ofCode? code).map ErrorCode.reason

/-- The report of a code number with a text of its own or, without one, with its meaning. -/
def ofCode (code : Int) (message : Option String) : ErrorReport :=
  ⟨code, message.getD (describe code)⟩

/-- The reason that goes with a report. -/
def reason? (r : ErrorReport) : Option Reason := reasonFor? r.code

/-- The name of the code. -/
def codeName? (r : ErrorReport) : Option String := (ErrorCode.ofCode? r.code).map ErrorCode.name

/-- The report in one line, with the name of the code behind the text. -/
def line (r : ErrorReport) : String :=
  let codeName := r.codeName?.getD "undefined"
  errorLine s!"{r.message} ({codeName})"

end ErrorReport

/-- The report of a frame error. -/
def FrameError.report (e : FrameError) : ErrorReport := ⟨e.code.code, e.message⟩

end PingCodec
