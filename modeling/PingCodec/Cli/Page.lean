import PingCodec.Text.Wrap

/-!
# Help pages

A help page shows how a command is called, what it does, and tables of terms with their
descriptions.  All tables of a page share one column for the terms, and text is wrapped to the
width of the page.

The library for command lines lays the pages out; the program only has the texts.
-/

namespace PingCodec.Cli

/-- A table of terms and descriptions. -/
structure Section where
  title : String
  items : List (String × String)

structure Page where
  usage : String
  description : String
  sections : List Section

namespace Page

def width : Nat := 80

/-- The spaces in front of a term, and between the columns. -/
def gap : Nat := 2

/-- The width of the longest term of a page. -/
def termWidth (page : Page) : Nat :=
  (page.sections.flatMap fun s => s.items.map fun item => item.1.length).foldl max 0

/-- The lines of one item: the description is filled into its column, and its other lines stand
below the first.  The last place of a line stays free. -/
def itemLines (termWidth : Nat) (item : String × String) : List String :=
  let column := gap + termWidth + gap
  let lines := Text.fill (width - column - 1) (Text.words item.2)
  let front := Text.padRight gap "" ++ Text.padRight (termWidth + gap) item.1
  match lines with
  | [] => [front]
  | first :: others => (front ++ first) :: others.map fun line => Text.padRight column "" ++ line

def lines (page : Page) : List String :=
  ["Usage: " ++ page.usage, ""] ++ Text.fill (width - 1) (Text.words page.description) ++
    page.sections.flatMap fun s =>
      ["", s.title ++ ":"] ++ s.items.flatMap (itemLines page.termWidth)

end Page

end PingCodec.Cli
