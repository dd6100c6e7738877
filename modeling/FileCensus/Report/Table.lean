import FileCensus.Report
import FileCensus.Text.Cut
import FileCensus.Text.Numeral
import FileCensus.Text.Width

/-!
# Reports as tables

Equal sides give one line. Otherwise a title is followed by a table with a row for every difference
and every path that one side lacks. A cell of several lines makes its row that high, and a column is
as wide as its widest line.
-/

namespace FileCensus

namespace Table

abbrev Row := List String

def lines (cell : String) : List (List Char) := cutAt '\n' cell.toList

/-- A line for measuring a column: a carriage return before a line feed does not count. -/
def measured (line : List Char) : List Char :=
  if line.getLast? = some '\r' then line.dropLast else line

/-- The width that a cell asks of its column. -/
def cellWidth (cell : String) : Nat :=
  match lines cell with
  | [] => 0
  | all => ((all.dropLast.map measured ++ all.getLast?.toList).map Text.width).foldl max 0

def columnWidths (rows : List Row) : List Nat :=
  rows.foldl (fun widths row => widths.zipWith max (row.map cellWidth)) [0, 0, 0, 0]

def pad (width : Nat) (line : List Char) : String :=
  String.ofList (line ++ List.replicate (width - Text.width line) ' ')

def rule (left middle right : String) (widths : List Nat) : String :=
  let lines := widths.map fun width => String.ofList (List.replicate (width + 2) '─')
  left ++ middle.intercalate lines ++ right

def rowText (widths : List Nat) (row : Row) : List String :=
  let cells := row.map lines
  let height := (cells.map List.length).foldl max 0
  (List.range height).map fun i =>
    let shown := widths.zipWith (fun width cell => " " ++ pad width (cell.getD i []) ++ " ") cells
    "│" ++ "│".intercalate shown ++ "│"

/-- Without rows the table ends below its header. -/
def render (header : Row) (rows : List Row) : String :=
  let widths := columnWidths (header :: rows)
  "\n".intercalate <|
    [rule "╭" "┬" "╮" widths] ++ rowText widths header ++ [rule "├" "┼" "┤" widths]
      ++ rows.flatMap (rowText widths)
      ++ if rows.isEmpty then [] else [rule "╰" "┴" "╯" widths]

end Table

namespace Report

def pathLimit : Nat := 60

/-- A path of at most the limit in characters; a longer one keeps its end after three dots. -/
def shownPath (path : String) : String :=
  let s := path.toList
  if s.length ≤ pathLimit then path
  else "..." ++ String.ofList (s.drop (s.length - (pathLimit - 3)))

def header : Table.Row := ["File Path", "Attribute", "Left", "Right"]

def differenceRows (t : Trace) : List Table.Row :=
  t.differences.map fun d => [shownPath t.path, d.subject.label, d.left, d.right]

def presenceRow (left right path : String) : Table.Row := [shownPath path, "Presence", left, right]

def rows (r : Report) : List Table.Row :=
  r.traces.flatMap differenceRows ++ r.onlyInLeft.map (presenceRow "present" "missing")
    ++ r.onlyInRight.map (presenceRow "missing" "present")

def title (r : Report) : String :=
  "📋  [" ++ r.leftLabel ++ "] vs [" ++ r.rightLabel ++ "]: "
    ++ Numeral.ofNat r.traces.length ++ " different, "
    ++ Numeral.ofNat r.onlyInLeft.length ++ " only in [" ++ r.leftLabel ++ "], "
    ++ Numeral.ofNat r.onlyInRight.length ++ " only in [" ++ r.rightLabel ++ "]"

def table (r : Report) : String :=
  if r.isEqual then "✅  [" ++ r.leftLabel ++ "] and [" ++ r.rightLabel ++ "] are equal"
  else r.title ++ "\n" ++ Table.render header r.rows

end Report

end FileCensus
