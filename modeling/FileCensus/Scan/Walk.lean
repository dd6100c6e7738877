import FileCensus.FileTree.Access

/-!
# Walking a directory

A walk finds the files below a directory, in every directory that it enters, and the directories
whose names it cannot list. What is not kept is not entered. Links are neither followed nor found.
-/

namespace FileCensus

/-- What a walk finds, by its location below the directory in which the walk began. -/
inductive Found where
  | file (location : Location)
  | unlisted (location : Location)
  deriving DecidableEq, Repr

namespace Found

def file? : Found → Option Location
  | .file location => some location
  | .unlisted _ => none

def unlisted? : Found → Option Location
  | .file _ => none
  | .unlisted location => some location

end Found

/-- What a walk knows in a directory, and whether it keeps an entry of it, by name and by whether it
is a directory. -/
structure WalkFilter where
  Known : Type
  survey : Location → Known
  keeps : Known → Path.Name → Bool → Bool

/-- The filter that looks at names only. -/
def WalkFilter.byName (keeps : Path.Name → Bool) : WalkFilter :=
  ⟨Unit, fun _ => (), fun _ name _ => keeps name⟩

namespace FileTree

mutual

/-- What is found at a node; `reachable` says whether its directory can be searched. -/
def walk (t : FileTree) (filter : WalkFilter) (reachable : Bool) (here : Location) :
    Node → List Found
  | .file .. => [.file here]
  | .link _ => []
  | .directory mode entries =>
    if reachable && t.canList mode then
      walkEntries t filter (t.allows mode .search) here (filter.survey here) entries
    else [.unlisted here]

def walkEntries (t : FileTree) (filter : WalkFilter) (reachable : Bool) (here : Location)
    (known : filter.Known) : List (Path.Name × Node) → List Found
  | [] => []
  | (name, node) :: rest =>
    (if filter.keeps known name node.isDirectory then
      walk t filter reachable (here ++ [name]) node
    else []) ++ walkEntries t filter reachable here known rest

end

end FileTree

end FileCensus
