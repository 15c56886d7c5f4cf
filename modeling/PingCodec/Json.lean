import PingCodec.Number.Decimal

/-!
# Structured data in log lines

The details of a log line are structured data, printed without spaces and with the members of an
object in their own order.
-/

namespace PingCodec

inductive Json where
  | null
  | bool (value : Bool)
  | number (value : Number)
  | string (value : String)
  | array (items : List Json)
  | object (members : List (String × Json))

namespace Json

def hexDigit (n : Nat) : Char := Nat.digitChar (n % 16)

/-- A character inside quotes: quotes, backslashes and control characters are escaped. -/
def escapeChar (c : Char) : List Char :=
  match c with
  | '"' => ['\\', '"']
  | '\\' => ['\\', '\\']
  | '\x08' => ['\\', 'b']
  | '\x0c' => ['\\', 'f']
  | '\n' => ['\\', 'n']
  | '\r' => ['\\', 'r']
  | '\t' => ['\\', 't']
  | c =>
    if c.val < 0x20 then ['\\', 'u', '0', '0', hexDigit (c.toNat / 16), hexDigit c.toNat] else [c]

def quote (text : String) : String :=
  String.ofList ('"' :: text.toList.flatMap escapeChar ++ ['"'])

def boolText (b : Bool) : String := if b then "true" else "false"

/-- The text of a number; one without a finite value has none. -/
def numberText (x : Number) : String :=
  match x.toRat? with
  | some _ => x.text
  | none => "null"

mutual

/-- The compact text of structured data. -/
def compact : Json → String
  | null => "null"
  | bool b => boolText b
  | number x => numberText x
  | string s => quote s
  | array items => "[" ++ ",".intercalate (compactItems items) ++ "]"
  | object members => "\x7b" ++ ",".intercalate (compactMembers members) ++ "\x7d"

def compactItems : List Json → List String
  | [] => []
  | j :: rest => compact j :: compactItems rest

def compactMembers : List (String × Json) → List String
  | [] => []
  | (key, j) :: rest => (quote key ++ ":" ++ compact j) :: compactMembers rest

end

/-- The text of a value that is shown by itself: a string without quotes, a number in full. -/
def plainText : Json → String
  | string s => s
  | number x => x.text
  | j => j.compact

end Json

end PingCodec
