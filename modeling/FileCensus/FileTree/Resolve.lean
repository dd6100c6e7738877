import FileCensus.Fault.Io
import FileCensus.FileTree.Node

/-!
# Resolving paths

A path leads through directories that may be searched, and every link on the way is replaced by its
target, up to a number of links. A path that is to be created may end in a free name, also where a
link at its end leads to one.
-/

namespace FileCensus

/-- The files, the directory from which relative paths start, and whether permissions are bypassed.
A user who is bound by permissions has those of others. -/
structure FileTree where
  root : Node
  cwd : Location
  privileged : Bool

inductive Right where
  | search
  | write
  | read
  deriving DecidableEq, Repr

def Right.bit : Right → Nat
  | .search => 0
  | .write => 1
  | .read => 2

/-- Whether the end of the path has to be there, or may be about to be created. -/
inductive PathEnd where
  | existing
  | creatable
  deriving DecidableEq, Repr

namespace FileTree

/-- Permissions that are not known forbid nothing. -/
def allows (t : FileTree) (mode : Mode) (right : Right) : Bool :=
  t.privileged || mode.all (·.testBit right.bit)

def linkLimit : Nat := 40

def nameLimit : Nat := 255

def pathLimit : Nat := 4095

/-- Where the rest of a path starts, and its segments. -/
def start (here : Location) (path : Bytes) : Location × List Bytes :=
  match cutAt Path.slash path with
  | [] => (here, [])
  | first :: rest => if first.isEmpty && !rest.isEmpty then ([], rest) else (here, first :: rest)

/-- The location to which the segments lead from a location, within so many links. -/
def follow (t : FileTree) (last : PathEnd) : Nat → Location → List Bytes → Except Errno Location
  | _, here, [] => .ok here
  | links, here, segment :: rest =>
    match t.root.at? here with
    | some (.directory mode entries) =>
      if segment.isEmpty then follow t last links here rest
      else if !t.allows mode .search then .error .denied
      else if segment = Path.dot then follow t last links here rest
      else if segment = Path.dotDot then follow t last links here.dropLast rest
      else if last = .creatable ∧ rest ≠ [] ∧ rest.all (·.isEmpty) then .error .isDirectory
      else if nameLimit < segment.length then .error .nameTooLong
      else
        match Node.findEntry segment entries with
        | none =>
          if last = .creatable ∧ rest = [] then .ok (here ++ [segment]) else .error .noEntry
        | some (.link target) =>
          match links with
          | 0 => .error .linkLoop
          | links + 1 =>
            let next := start here target
            follow t last links next.1 (next.2 ++ rest)
        | some _ => follow t last links (here ++ [segment]) rest
    | some _ => .error .notDirectory
    | none => .error .noEntry
  termination_by links _ segments => (links, segments.length)

/-- The location that a path names. -/
def resolve (t : FileTree) (last : PathEnd) (path : Bytes) : Except IoFault Location :=
  if path.contains 0 then .error .zeroByte
  else if path.isEmpty then .error (.system .noEntry)
  else if pathLimit < path.length then .error (.system .nameTooLong)
  else
    let first := start t.cwd path
    (t.follow last linkLimit first.1 first.2).mapError .system

/-- The node that a path names. -/
def node (t : FileTree) (path : Bytes) : Except IoFault Node :=
  match t.resolve .existing path with
  | .error fault => .error fault
  | .ok location =>
    match t.root.at? location with
    | some n => .ok n
    | none => .error (.system .noEntry)

/-- Where the last name of a path stands, whether or not it is there; a link of that name is not
followed. -/
def entryLocation? (t : FileTree) (path : Bytes) : Option Location := do
  let name ← Path.fileName path
  let parent := Path.parent path
  let location ← (t.resolve .existing (if parent.isEmpty then Path.dot else parent)).toOption
  return location ++ [name]

end FileTree

end FileCensus
