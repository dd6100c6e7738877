import FileCensus.FileTree.Resolve
import FileCensus.Source
import FileCensus.Text.Numeral

/-!
# Reading and writing files

What can be learned of the node that a path names, what opening it gives, and the tree after its
content has been replaced. Names in a directory can be listed, and a file can be opened or replaced,
only with the right to do so.
-/

namespace FileCensus

/-- What is known of a node without opening it; the time counts milliseconds. -/
structure Stat where
  size : Nat
  modified : Int
  mode : Mode
  deriving DecidableEq, Repr

/-- The size that a directory has of its own. -/
def directorySize : Nat := 4096

def nanosPerMilli : Int := 1000000

def Node.stat : Node → Stat
  | .file content modified mode => ⟨content.length, modified / nanosPerMilli, mode⟩
  | .link target => ⟨target.length, 0, some 0o777⟩
  | .directory mode _ => ⟨directorySize, 0, mode⟩

/-- The three permission bits of owner, group and others as octal digits. -/
def Stat.permissions (s : Stat) : Option String :=
  s.mode.map fun mode => Numeral.octal (mode % 0o1000)

namespace FileTree

def stat (t : FileTree) (path : Bytes) : Except IoFault Stat := (t.node path).map Node.stat

def isDirectory (t : FileTree) (path : Bytes) : Bool :=
  match t.node path with
  | .ok n => n.isDirectory
  | .error _ => false

/-- Whether the names in a directory of this mode can be listed. -/
def canList (t : FileTree) (mode : Mode) : Bool := t.allows mode .read

/-- A directory can be opened, but reading it fails. -/
def openNode (t : FileTree) : Node → Except IoFault Source
  | .file content _ mode =>
    if t.allows mode .read then .ok (.whole content) else .error (.system .denied)
  | .directory mode _ =>
    if t.allows mode .read then .ok ⟨[], some (.system .isDirectory)⟩
    else .error (.system .denied)
  | .link _ => .error (.system .linkLoop)

def openPath (t : FileTree) (path : Bytes) : Except IoFault Source :=
  match t.node path with
  | .error fault => .error fault
  | .ok n => t.openNode n

def newFileMode : Mode := some 0o644

/-- The mode of the file that is written at a location: its own, or that of a new file if there is
none yet. -/
def writableMode (t : FileTree) (location : Location) : Except IoFault Mode :=
  match t.root.at? location with
  | some (.file _ _ mode) =>
    if t.allows mode .write then .ok mode else .error (.system .denied)
  | some _ => .error (.system .isDirectory)
  | none =>
    match t.root.at? location.dropLast with
    | some (.directory mode _) =>
      if t.allows mode .write then .ok newFileMode else .error (.system .denied)
    | _ => .error (.system .notDirectory)

/-- The tree after a file has been created or replaced at a given time. -/
def write (t : FileTree) (path content : Bytes) (now : Int) : Except IoFault FileTree :=
  match t.resolve .creatable path with
  | .error fault => .error fault
  | .ok location =>
    match t.writableMode location with
    | .error fault => .error fault
    | .ok mode => .ok { t with root := Node.put (.file content now mode) location t.root }

end FileTree

end FileCensus
