import FileCensus.Ignore.PatternReader
import FileCensus.Text.Blank

/-!
# Lines of ignore files

Each line of an ignore file names paths that are left out, or with an exclamation mark in front
paths that are kept. A line without a slash before its end names entries at any depth; others are
relative to the directory of the file. The last line that names a path decides.
-/

namespace FileCensus.Ignore

structure Line where
  negated : Bool
  directoriesOnly : Bool
  pattern : Pattern

namespace Line

/-- Without white space at the end, unless a backslash keeps it. -/
def trimmed (s : List Char) : List Char :=
  if s.reverse.take 2 = [' ', '\\'] then s else Text.trimEnd s

/-- Whether the line keeps what it names, whether it is bound to its directory, and its text. -/
def readMarks (s : List Char) : Bool × Bool × List Char :=
  match s with
  | '\\' :: '!' :: rest => (false, false, '!' :: rest)
  | '\\' :: '#' :: rest => (false, false, '#' :: rest)
  | '!' :: '/' :: rest => (true, true, rest)
  | '!' :: rest => (true, false, rest)
  | '/' :: rest => (false, true, rest)
  | s => (false, false, s)

/-- Whether the text ends in a slash, and the text without it. -/
def readFinalSlash (s : List Char) : Bool × List Char :=
  match s.reverse with
  | '/' :: '\\' :: rest => (true, rest.reverse)
  | '/' :: rest => (true, rest.reverse)
  | _ => (false, s)

def anyDepth : List Char := "**/".toList

def everythingBelow : List Char := "/**".toList

/-- The pattern's text for the whole of a path. -/
def wholePath (bound : Bool) (s : List Char) : List Char :=
  let s :=
    if bound || s.contains '/' || s = "**".toList then s else anyDepth ++ s
  if everythingBelow.isSuffixOf s then s ++ "/*".toList else s

/-- The line that a text stands for; comments and empty lines are none. -/
def parse (s : List Char) : Option Line :=
  if s.head? = some '#' then none
  else
    let s := trimmed s
    if s.isEmpty then none
    else
      let (negated, bound, s) := readMarks s
      let (directoriesOnly, s) := readFinalSlash s
      (readPattern (wholePath bound s)).map fun pattern => ⟨negated, directoriesOnly, pattern⟩

def names (l : Line) (path : Bytes) (isDirectory : Bool) : Bool :=
  (!l.directoriesOnly || isDirectory) && l.pattern.covers path

end Line

/-- The texts of the lines of a file, up to the first one that is no text. -/
def lineTexts : List Bytes → List (List Char)
  | [] => []
  | line :: rest =>
    match Utf8.decode line with
    | .ok s => s.toList :: lineTexts rest
    | .error _ => []

/-- A carriage return before a line feed belongs to the end of the line. -/
def dropReturn (line : Bytes) : Bytes := if line.getLast? = some 0x0D then line.dropLast else line

def splitLines (content : Bytes) : List Bytes :=
  let pieces := cutAt 0x0A content
  pieces.dropLast.map dropReturn ++ pieces.getLast?.toList

/-- The lines of a file; a byte order mark in front is passed over. -/
def readLines (content : Bytes) : List Line :=
  match lineTexts (splitLines content) with
  | [] => []
  | first :: rest => (first.dropWhile (· = '\uFEFF') :: rest).filterMap Line.parse

/-- Whether the lines leave a path out or keep it, if they name it. -/
def leavesOut? (lines : List Line) (path : Bytes) (isDirectory : Bool) : Option Bool :=
  (lines.reverse.find? fun l => l.names path isDirectory).map fun l => !l.negated

end FileCensus.Ignore
