import FileCensus.Path.Posix

/-!
# Trees of files

A node is a regular file, a symbolic link or a directory of named nodes. A location is the list of
the names on the way to a node, which no link is on.
-/

namespace FileCensus

/-- Three permission bits for each of owner, group and others, where the system tells them. -/
abbrev Mode := Option Nat

/-- Modification times count nanoseconds from the start of 1970. -/
inductive Node where
  | file (content : Bytes) (modified : Int) (mode : Mode)
  | link (target : Bytes)
  | directory (mode : Mode) (entries : List (Path.Name × Node))

abbrev Location := List Path.Name

/-- The absolute path of a location. -/
def Location.path (l : Location) : Bytes := Path.slash :: Path.join l

namespace Node

def entries : Node → List (Path.Name × Node)
  | .directory _ entries => entries
  | _ => []

def findEntry (name : Path.Name) : List (Path.Name × Node) → Option Node
  | [] => none
  | (other, node) :: rest => if other = name then some node else findEntry name rest

def child? (n : Node) (name : Path.Name) : Option Node := findEntry name n.entries

def at? (n : Node) : Location → Option Node
  | [] => some n
  | name :: rest =>
    match n.child? name with
    | none => none
    | some child => child.at? rest

def isDirectory : Node → Bool
  | .directory .. => true
  | _ => false

def isFile : Node → Bool
  | .file .. => true
  | _ => false

/-- Gives a name to a node, in the place of the node that has it. -/
def putEntry (name : Path.Name) (new : Node) :
    List (Path.Name × Node) → List (Path.Name × Node)
  | [] => [(name, new)]
  | (other, node) :: rest =>
    if other = name then (name, new) :: rest else (other, node) :: putEntry name new rest

/-- Puts a node at a location whose parent is a directory; elsewhere nothing changes. -/
def put (new : Node) : Location → Node → Node
  | [], _ => new
  | name :: rest, .directory mode entries =>
    match findEntry name entries with
    | some child => .directory mode (putEntry name (put new rest child) entries)
    | none => .directory mode (if rest.isEmpty then putEntry name new entries else entries)
  | _ :: _, n => n

/-- Takes away the node at a location. -/
def remove : Location → Node → Node
  | [name], .directory mode entries => .directory mode (entries.filter (·.1 ≠ name))
  | name :: rest, .directory mode entries =>
    match findEntry name entries with
    | some child => .directory mode (putEntry name (remove rest child) entries)
    | none => .directory mode entries
  | _, n => n

@[simp] theorem at?_nil (n : Node) : n.at? [] = some n := rfl

theorem at?_append (n : Node) (l m : Location) : n.at? (l ++ m) = (n.at? l).bind (·.at? m) := by
  induction l generalizing n with
  | nil => rfl
  | cons name rest ih =>
    simp only [List.cons_append, at?]
    cases n.child? name with
    | none => rfl
    | some child => exact ih child

theorem findEntry_putEntry (name other : Path.Name) (new : Node)
    (entries : List (Path.Name × Node)) :
    findEntry other (putEntry name new entries) =
      if other = name then some new else findEntry other entries := by
  induction entries with
  | nil => by_cases h : other = name <;> simp_all [putEntry, findEntry, eq_comm]
  | cons e rest ih =>
    by_cases hk : e.1 = name <;> by_cases h : other = name <;>
      simp_all [putEntry, findEntry, eq_comm]

end Node

end FileCensus
