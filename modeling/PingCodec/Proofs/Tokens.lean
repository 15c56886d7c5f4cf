import Mathlib.Data.List.Induction
import PingCodec.Cli.CommandLine
import PingCodec.Proofs.HexReading
import PingCodec.Proofs.Scan

/-!
# Options of the encode command

The options of the command as they are written on a command line, in any order and number.  To the
program they are unknown, so all of them are left to the command (`scan_programOptions_tokens`), which
finds them as they come (`scan_encodeOptions_tokens`).  If no value is rejected they add up to one
request, in which the last value of an option counts (`foldlM_note`); otherwise the first value that is
rejected decides (`foldlM_note_error`).
-/

namespace PingCodec.Cli

/-! ## Tokens -/

/-- A text that does not begin with a dash. -/
abbrev Word := { text : String // IsWord text }

/-- The ways to write an option that takes a value. -/
inductive Spelling where
  | short
  | long
  | assigned

def Spelling.arguments (short long : String) (value : Word) : Spelling → List String
  | .short => [short, value]
  | .long => [long, value]
  | .assigned => [long ++ "=" ++ value]

/-- An option of the encode command as it is written. -/
inductive Token where
  | ack (short : Bool)
  | payload (spelling : Spelling) (value : Word)
  | shutdown
  | user (spelling : Spelling) (value : Word)
  | random (short : Bool)

namespace Token

def arguments : Token → List String
  | ack short => [if short then "-a" else "--ack"]
  | payload spelling value => spelling.arguments "-p" "--payload" value
  | shutdown => ["--shutdown"]
  | user spelling value => spelling.arguments "-u" "--user" value
  | random short => [if short then "-r" else "--random"]

/-- The option that a token is. -/
def option : Token → EncodeOption
  | ack _ => .ack
  | payload _ _ => .payload
  | shutdown => .shutdown
  | user _ _ => .user
  | random _ => .random

/-- The bytes that a token gives for the payload. -/
def bytes? : Token → Option Bytes
  | payload _ value => (parseHex value).toOption
  | _ => none

/-- The tag that a token gives for a user payload. -/
def tag? : Token → Option UserTag
  | user _ value => (parseUserTag value).toOption
  | _ => none

/-- The complaint over the value of an option. -/
def complaint (flags value fault : String) : String :=
  "error: option '" ++ flags ++ "' argument '" ++ value ++ "' is invalid. " ++ fault

/-- The complaint over a value that is not what its option asks for. -/
def complaint? : Token → Option String
  | payload _ value =>
    match parseHex value with
    | .ok _ => none
    | .error _ =>
      some (complaint "-p, --payload <hex>" value ("Not a hex byte string: \"" ++ value ++ "\""))
  | user _ value =>
    match parseUserTag value with
    | .ok _ => none
    | .error _ =>
      some (complaint "-u, --user <id>" value ("User ping id must be 0 or 1, got \"" ++ value ++ "\""))
  | _ => none

/-- The token as the command finds it among its arguments. -/
def occurrence : Token → Occurrence EncodeOption
  | ack _ => { option := encodeOptions[0] }
  | payload _ value => ⟨encodeOptions[1], some value⟩
  | shutdown => { option := encodeOptions[2] }
  | user _ value => ⟨encodeOptions[3], some value⟩
  | random _ => { option := encodeOptions[4] }

end Token

/-! ## Finding tokens -/

section

variable {κ : Type} {table : List (OptionSpec κ)} {front text : String} {cs : List Char}
  (dashed : front.toList = '-' :: cs)

include dashed

theorem readArgument_append :
    readArgument table (front ++ text) = readDashed table (cs ++ text.toList) := by
  rw [readArgument, String.toList_append, dashed]
  rfl

theorem readArgument_carries {o : OptionSpec κ}
    (h : readDashed table (cs ++ text.toList) = ([], .carries o (String.ofList text.toList))) :
    readArgument table (front ++ text) = ([], .carries o text) := by
  rw [readArgument_append dashed, h, String.ofList_toList]

theorem readArgument_unknown
    (h : readDashed table (cs ++ text.toList) =
      ([], .unknown (String.ofList (front.toList ++ text.toList)))) :
    readArgument table (front ++ text) = ([], .unknown (front ++ text)) := by
  rw [readArgument_append dashed, h, ← String.toList_append, String.ofList_toList]

end

section

variable {κ : Type} {table : List (OptionSpec κ)} {short long : String} {value : Word}
  (afterUnknown : Bool) (spelling : Spelling) (rest : List String)

theorem scan_spelling {o : OptionSpec κ} (atShort : readArgument table short = ([], .awaits o))
    (atLong : readArgument table long = ([], .awaits o))
    (assigned : readArgument table (long ++ "=" ++ value) = ([], .carries o value)) :
    scan table afterUnknown (spelling.arguments short long value ++ rest) =
      (scan table afterUnknown rest).withOptions [⟨o, some value⟩] := by
  cases spelling with
  | short => exact scan_value _ atShort _ _
  | long => exact scan_value _ atLong _ _
  | assigned => exact scan_carried _ assigned _

theorem scan_spelling_unknown (atShort : readArgument table short = ([], .unknown short))
    (atLong : readArgument table long = ([], .unknown long))
    (assigned : readArgument table (long ++ "=" ++ value) = ([], .unknown (long ++ "=" ++ value))) :
    scan table afterUnknown (spelling.arguments short long value ++ rest) =
      (scan table true rest).withWords true (spelling.arguments short long value) := by
  have apart {name : String} (h : readArgument table name = ([], .unknown name)) :
      scan table afterUnknown (name :: value :: rest) =
        (scan table true rest).withWords true [name, value] := by
    rw [scan_unknown _ h, scan_word _ value.2]
    rfl
  cases spelling with
  | short => exact apart atShort
  | long => exact apart atLong
  | assigned => exact scan_unknown _ assigned _

end

namespace Token

theorem scan_encodeOptions_token (t : Token) (rest : List String) :
    scan encodeOptions false (t.arguments ++ rest) =
      (scan encodeOptions false rest).withOptions [t.occurrence] := by
  cases t with
  | ack short => cases short <;> exact scan_flag _ rfl _
  | payload spelling value =>
    exact scan_spelling false spelling rest rfl rfl (readArgument_carries (by rfl) rfl)
  | shutdown => exact scan_flag _ rfl _
  | user spelling value =>
    exact scan_spelling false spelling rest rfl rfl (readArgument_carries (by rfl) rfl)
  | random short => cases short <;> exact scan_flag _ rfl _

theorem scan_programOptions_token (t : Token) (afterUnknown : Bool) (rest : List String) :
    scan programOptions afterUnknown (t.arguments ++ rest) =
      (scan programOptions true rest).withWords true t.arguments := by
  cases t with
  | ack short => cases short <;> exact scan_unknown _ rfl _
  | payload spelling value =>
    exact scan_spelling_unknown _ spelling rest rfl rfl (readArgument_unknown (by rfl) rfl)
  | shutdown => exact scan_unknown _ rfl _
  | user spelling value =>
    exact scan_spelling_unknown _ spelling rest rfl rfl (readArgument_unknown (by rfl) rfl)
  | random short => cases short <;> exact scan_unknown _ rfl _

/-- The command finds all tokens in their order. -/
theorem scan_encodeOptions_tokens (tokens : List Token) :
    scan encodeOptions false (tokens.flatMap arguments) = { occurrences := tokens.map occurrence } := by
  induction tokens with
  | nil => rfl
  | cons t tokens ih =>
    rw [List.flatMap_cons, scan_encodeOptions_token, ih]
    rfl

/-- The program leaves all tokens to the command. -/
theorem scan_programOptions_tokens (tokens : List Token) (afterUnknown : Bool) :
    scan programOptions afterUnknown (tokens.flatMap arguments) =
      { unknown := tokens.flatMap arguments } := by
  induction tokens generalizing afterUnknown with
  | nil => rfl
  | cons t tokens ih =>
    rw [List.flatMap_cons, scan_programOptions_token, ih]
    rfl

end Token

/-! ## What tokens ask for -/

theorem eq_notHex_of_parseHex {text : String} {e : ArgumentError} (h : parseHex text = .error e) :
    e = .notHex text := by
  rw [Hex.parseHex_eq] at h
  cases read : Hex.decode text with
  | error fault => rw [read] at h; exact (Except.error.inj h).symm
  | ok bs => rw [read] at h; cases h

theorem eq_notUserTag_of_parseUserTag {text : String} {e : ArgumentError}
    (h : parseUserTag text = .error e) : e = .notUserTag text := by
  unfold parseUserTag at h
  split_ifs at h
  exact (Except.error.inj h).symm

/-- The request that tokens make. -/
def requestOf (tokens : List Token) : EncodeRequest where
  ack := .ack ∈ tokens.map Token.option
  payload := (tokens.filterMap Token.bytes?).getLast?
  shutdown := if .shutdown ∈ tokens.map Token.option then some true else none
  user := (tokens.filterMap Token.tag?).getLast?
  random := if .random ∈ tokens.map Token.option then some true else none

namespace Token

/-- An accepted token adds itself to the request of those in front of it. -/
theorem note_of_accepted {t : Token} (accepted : t.complaint? = none) (front : List Token) :
    (requestOf front).note t.occurrence = .ok (requestOf (front ++ [t])) := by
  cases t with
  | ack _ | shutdown | random _ =>
    simp [EncodeRequest.note, occurrence, encodeOptions, requestOf, option, bytes?, tag?]
  | payload spelling value =>
    cases read : parseHex value with
    | error e => simp [complaint?, read] at accepted
    | ok bs =>
      simp [EncodeRequest.note, occurrence, encodeOptions, requestOf, option, bytes?, tag?, read,
        Except.toOption]
  | user spelling value =>
    cases read : parseUserTag value with
    | error e => simp [complaint?, read] at accepted
    | ok tag =>
      simp [EncodeRequest.note, occurrence, encodeOptions, requestOf, option, bytes?, tag?, read,
        Except.toOption]

theorem line_badValue (flags value : String) (e : ArgumentError) :
    errorLine (UsageError.badValue flags value e).message = complaint flags value e.message := by
  -- The literals of the complaint are the pieces of the message put together.
  have front : "error: option '" = "error: " ++ ("option " ++ "'") := rfl
  have middle : "' argument '" = "'" ++ " argument " ++ "'" := rfl
  have back : "' is invalid. " = "'" ++ " is invalid. " := rfl
  unfold complaint
  rw [front, middle, back]
  show "error: " ++ ("option " ++ ("'" ++ flags ++ "'") ++ " argument " ++ ("'" ++ value ++ "'") ++
    " is invalid. " ++ e.message) = _
  simp only [String.append_assoc]

/-- A rejected token is complained about whatever was asked for in front of it. -/
theorem note_of_rejected {t : Token} {line : String} (rejected : t.complaint? = some line)
    (r : EncodeRequest) : ∃ e, r.note t.occurrence = .error e ∧ errorLine e.message = line := by
  cases t with
  | ack _ | shutdown | random _ => cases rejected
  | payload spelling value =>
    cases read : parseHex value with
    | ok bs => simp [complaint?, read] at rejected
    | error e =>
      obtain rfl := eq_notHex_of_parseHex read
      rw [complaint?, read] at rejected
      refine ⟨.badValue encodeOptions[1].flags value (.notHex value), ?_, ?_⟩
      · simp [EncodeRequest.note, occurrence, encodeOptions, read]
      · exact (line_badValue _ _ _).trans (Option.some.inj rejected)
  | user spelling value =>
    cases read : parseUserTag value with
    | ok tag => simp [complaint?, read] at rejected
    | error e =>
      obtain rfl := eq_notUserTag_of_parseUserTag read
      rw [complaint?, read] at rejected
      refine ⟨.badValue encodeOptions[3].flags value (.notUserTag value), ?_, ?_⟩
      · simp [EncodeRequest.note, occurrence, encodeOptions, read]
      · exact (line_badValue _ _ _).trans (Option.some.inj rejected)

/-- Accepted tokens add up to their request. -/
theorem foldlM_note {tokens : List Token} (accepted : ∀ t ∈ tokens, t.complaint? = none) :
    (tokens.map occurrence).foldlM EncodeRequest.note {} = .ok (requestOf tokens) := by
  induction tokens using List.reverseRecOn with
  | nil => rfl
  | append_singleton front t ih =>
    obtain ⟨before, last⟩ := List.forall_mem_append.1 accepted
    rw [List.map_append, List.foldlM_append, ih before]
    show (requestOf front).note t.occurrence >>= pure = _
    rw [note_of_accepted (last t List.mem_cons_self)]
    rfl

/-- The first token that is rejected decides, whatever comes behind it. -/
theorem foldlM_note_error {tokens : List Token} {line : String}
    (first : tokens.findSome? complaint? = some line) :
    ∃ e, (tokens.map occurrence).foldlM EncodeRequest.note {} = .error e ∧
      errorLine e.message = line := by
  obtain ⟨front, t, back, rfl, rejected, before⟩ := List.findSome?_eq_some_iff.1 first
  obtain ⟨e, failed, text⟩ := note_of_rejected rejected (requestOf front)
  refine ⟨e, ?_, text⟩
  rw [List.map_append, List.foldlM_append, foldlM_note before, List.map_cons]
  show (requestOf front).note t.occurrence >>= _ = _
  rw [failed]
  rfl

end Token

/-- Tokens alone leave nothing to be seen to before the command is carried out. -/
theorem ofEncode_tokens (tokens : List Token) :
    Course.ofEncode (tokens.flatMap Token.arguments) =
      .ofOptions (tokens.map Token.occurrence) fun request => .action (.encode request) := by
  rw [Course.ofEncode, Token.scan_encodeOptions_tokens]
  rfl

end PingCodec.Cli
