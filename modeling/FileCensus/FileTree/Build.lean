import FileCensus.FileTree.Access

/-!
# Making a tree

Puts files, links and directories where paths name them, with the directories on the way. What
cannot be put is left out.
-/

namespace FileCensus.FileTree

def newDirectory : Node := .directory (some 0o755) []

/-- Puts a node where a path leads unless there is one. -/
def putNew (t : FileTree) (path : Bytes) (new : Node) : FileTree :=
  match t.resolve .creatable path with
  | .error _ => t
  | .ok location =>
    match t.root.at? location with
    | some _ => t
    | none => { t with root := Node.put new location t.root }

/-- The paths of the directories on the way to a path, and of the path itself, without what says
nothing at its end. -/
def stages (path : Bytes) : List Bytes :=
  let segments := Path.trimBody (cutAt Path.slash path)
  (List.range segments.length).map fun n => Path.join (segments.take (n + 1))

/-- Makes a directory and those on the way to it. -/
def makeDirectories (t : FileTree) (path : Bytes) : FileTree :=
  ((stages path).filter (!·.isEmpty)).foldl (fun t stage => t.putNew stage newDirectory) t

def makeParents (t : FileTree) (path : Bytes) : FileTree :=
  ((stages path).dropLast.filter (!·.isEmpty)).foldl
    (fun t stage => t.putNew stage newDirectory) t

def putFile (t : FileTree) (path content : Bytes) (modified : Int) (mode : Mode) : FileTree :=
  let t := t.makeParents path
  match t.resolve .creatable path with
  | .error _ => t
  | .ok location =>
    match t.root.at? location with
    | some (.directory ..) => t
    | _ => { t with root := Node.put (.file content modified mode) location t.root }

def putLink (t : FileTree) (path target : Bytes) : FileTree :=
  let t := t.makeParents path
  match t.entryLocation? path with
  | none => t
  | some location =>
    match t.root.at? location with
    | some _ => t
    | none => { t with root := Node.put (.link target) location t.root }

def remove (t : FileTree) (path : Bytes) : FileTree :=
  match t.entryLocation? path with
  | none => t
  | some location => { t with root := Node.remove location t.root }

def setMode (t : FileTree) (path : Bytes) (mode : Mode) : FileTree :=
  match t.resolve .existing path with
  | .error _ => t
  | .ok location =>
    match t.root.at? location with
    | some (.directory _ entries) =>
      { t with root := Node.put (.directory mode entries) location t.root }
    | some (.file content modified _) =>
      { t with root := Node.put (.file content modified mode) location t.root }
    | _ => t

end FileCensus.FileTree
