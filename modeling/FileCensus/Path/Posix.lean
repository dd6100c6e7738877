import FileCensus.Path.Normal
import FileCensus.Text.Utf8

/-!
# Paths of the file system

A path is a byte string, and only a slash separates. Empty and single-dot segments say nothing,
except that a dot in front of a relative path counts as a component of its own. A path relative to
another keeps its own text after the shared components.
-/

namespace FileCensus.Path

abbrev Name := Bytes

def slash : UInt8 := 0x2F

def dot : Name := [0x2E]

def dotDot : Name := [0x2E, 0x2E]

def isIdle (segment : Bytes) : Bool := segment.isEmpty || segment = dot

inductive Component where
  | root
  | current
  | parent
  | name (n : Name)
  deriving DecidableEq, Repr

/-- A path in three parts: what its first segment says if that is the root or a leading dot, the
text of that segment, and the segments after it. -/
structure Split where
  lead : Option Component
  body : List Bytes

def split (path : Bytes) : Split :=
  match cutAt slash path with
  | [] => ⟨none, []⟩
  | first :: rest =>
    if first.isEmpty && !rest.isEmpty then ⟨some .root, rest⟩
    else if first = dot then ⟨some .current, rest⟩
    else ⟨none, first :: rest⟩

def component? (segment : Bytes) : Option Component :=
  if isIdle segment then none else if segment = dotDot then some .parent else some (.name segment)

def Split.components (s : Split) : List Component := s.lead.toList ++ s.body.filterMap component?

def join (names : List Bytes) : Bytes := [slash].intercalate names

/-- The segments up to the last one that says something. -/
def trimBody (body : List Bytes) : List Bytes := (body.reverse.dropWhile isIdle).reverse

def Split.text (s : Split) : Bytes :=
  match s.lead with
  | some .root => slash :: join s.body
  | some .current => join (dot :: s.body)
  | _ => join s.body

/-- The segments left after so many components. -/
def dropComponents : Nat → List Bytes → List Bytes
  | 0, body => body
  | _ + 1, [] => []
  | n + 1, segment :: rest =>
    if isIdle segment then dropComponents (n + 1) rest else dropComponents n rest

/-- The text of `path` after the components of `root`, if it begins with them. -/
def strip (root path : Bytes) : Option Bytes :=
  let start := (split root).components
  let s := split path
  if start.isPrefixOf s.components then
    let rest := { s with body := trimBody s.body }
    if start.isEmpty then some rest.text
    else
      let count := start.length - rest.lead.toList.length
      some (join ((dropComponents count rest.body).dropWhile isIdle))
  else none

/-- The normal form of `path` seen from `root`. -/
def relative (root path : Bytes) : String :=
  normalize (Utf8.decodeLossy ((strip root path).getD path))

/-- The last component, if it is a name. -/
def fileName (path : Bytes) : Option Name :=
  match (split path).components.getLast? with
  | some (.name n) => some n
  | _ => none

/-- The path without its last component. -/
def parent (path : Bytes) : Bytes :=
  let s := split path
  Split.text { s with body := trimBody (trimBody s.body).dropLast }

/-- The file name as text, empty if there is none. -/
def shownName (path : Bytes) : String := Utf8.decodeLossy ((fileName path).getD [])

end FileCensus.Path
