import FileCensus.FileTree.Build
import Std.Time.DateTime.Timestamp

/-!
# The files of the system

Reads the files that a run can look at into a tree: what is on the way along a path, what the links
there lead to and, where all is asked for, everything below. The system does not tell permissions,
so they stay unknown; what cannot be opened is given a mode that says so.
-/

namespace FileCensus.Disk

/-- What is read at the end of a path: the node there, or everything below it too. -/
inductive Extent where
  | node
  | below
  deriving DecidableEq

def unopenable : Mode := some 0

def nanos (time : IO.FS.SystemTime) : Int := time.sec * 1000000000 + time.nsec.toNat

/-- The absolute form of a path. -/
def absolute (path : String) : IO String := do
  return ((← IO.currentDir) / path).toString

mutual

/-- Adds the node at a place whose parents are in the tree, within so many levels. -/
def addNode (t : FileTree) (place : String) (extent : Extent) : Nat → IO FileTree
  | 0 => return t
  | levels + 1 => do
    let path := (← IO.currentDir) / place
    let key := Utf8.encode place
    match ← path.symlinkMetadata.toBaseIO with
    | .error _ => return t
    | .ok data =>
      match data.type with
      | .dir =>
        let t := t.putNew key (.directory none [])
        if extent = .node then return t
        match ← path.readDir.toBaseIO with
        | .error _ => return t.setMode key unopenable
        | .ok entries =>
          entries.foldlM (fun t entry => addEntry t (place ++ "/" ++ entry.fileName) levels) t
      | .symlink =>
        match ← (IO.FS.realPath path).toBaseIO with
        | .error _ => return t
        | .ok target =>
          let t ← addPath t target.toString extent levels
          return t.putLink key (Utf8.encode target.toString)
      | .file =>
        match ← (IO.FS.readBinFile path).toBaseIO with
        | .ok content => return t.putFile key content.data.toList (nanos data.modified) none
        | .error _ =>
          let content := List.replicate data.byteSize.toNat 0
          return t.putFile key content (nanos data.modified) unopenable
      | .other => return t

/-- Adds an entry of a directory; of a link only what it leads to, and nothing below. -/
def addEntry (t : FileTree) (place : String) : Nat → IO FileTree
  | 0 => return t
  | levels + 1 => do
    let path := (← IO.currentDir) / place
    match ← path.symlinkMetadata.toBaseIO with
    | .error _ => return t
    | .ok data => addNode t place (if data.type == .symlink then .node else .below) levels

/-- Adds everything on the way along an absolute path. -/
def addPath (t : FileTree) (path : String) (extent : Extent) : Nat → IO FileTree
  | 0 => return t
  | levels + 1 => do
    let stages := ((FileTree.stages (Utf8.encode path)).filter (!·.isEmpty)).map Utf8.decodeLossy
    let t ← stages.dropLast.foldlM (fun t stage => addNode t stage .node levels) t
    match stages.getLast? with
    | none => return t
    | some last => addNode t last extent levels

end

/-- How deep directories and links are read. -/
def levelLimit : Nat := 10000

/-- Adds what a path names, given as it is on the command line. -/
def add (t : FileTree) (path : String) (extent : Extent) : IO FileTree := do
  addPath t (← absolute path) extent levelLimit

def ignoreFiles : List String := [".ignore", ".gitignore", ".git/info/exclude"]

/-- Adds the ignore files of all directories above a path. -/
def addIgnoreFiles (t : FileTree) (path : String) : IO FileTree := do
  match ← (IO.FS.realPath path).toBaseIO with
  | .error _ => return t
  | .ok real =>
    let stages := (FileTree.stages (Utf8.encode real.toString)).map Utf8.decodeLossy
    stages.foldlM (fun t stage => ignoreFiles.foldlM
      (fun t file => addPath t (stage ++ "/" ++ file) .node levelLimit) t) t

/-- The tree that holds nothing but the working directory. -/
def start : IO FileTree := do
  let cwd := (← IO.FS.realPath ".").toString
  let names := (cutAt Path.slash (Utf8.encode cwd)).filter (!·.isEmpty)
  addPath ⟨.directory none [], names, false⟩ cwd .node levelLimit

def now : IO Int := do
  return (← Std.Time.Timestamp.now).toNanosecondsSinceUnixEpoch.val

def hostFile : String := "/etc/hostname"

def host : IO String := do
  match ← (IO.FS.readFile hostFile).toBaseIO with
  | .ok text => return text.trimAscii.toString
  | .error _ => return "unknown"

end FileCensus.Disk
