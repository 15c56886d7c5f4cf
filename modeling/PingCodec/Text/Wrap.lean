/-!
# Wrapping text

Running text is filled into lines of bounded width, as many words on a line as it has room for.
-/

namespace PingCodec.Text

/-- Fill words into lines of at most the given width, of which the first is begun; a word that is
wider has a line of its own. -/
def fillFrom (width : Nat) (line : String) : List String → List String
  | [] => [line]
  | word :: rest =>
    if line.length + 1 + word.length ≤ width then fillFrom width (line ++ " " ++ word) rest
    else line :: fillFrom width word rest

/-- Fill words into lines of at most the given width. -/
def fill (width : Nat) : List String → List String
  | [] => []
  | word :: rest => fillFrom width word rest

def words (text : String) : List String :=
  ((text.toList.splitOn ' ').filter (· ≠ [])).map String.ofList

/-- A text with spaces behind it up to the given width. -/
def padRight (width : Nat) (text : String) : String :=
  text ++ String.ofList (List.replicate (width - text.length) ' ')

end PingCodec.Text
