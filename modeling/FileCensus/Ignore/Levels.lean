import FileCensus.FileTree.Access
import FileCensus.Ignore.Line

/-!
# Ignore files in a tree

Every directory from the root of the tree down to that of an entry may hold ignore files of three
kinds. A kind that decides outranks those after it, and within a kind the deepest directory that
decides outranks those above.
-/

namespace FileCensus.Ignore

/-- The lines of the ignore files of one directory, by kind. -/
structure Level where
  location : Location
  own : List Line
  versioned : List Line
  excluded : List Line

/-- The places of the three kinds within a directory. -/
def ownFile : List Bytes := [Utf8.encode ".ignore"]

def versionedFile : List Bytes := [Utf8.encode ".gitignore"]

def excludedFile : List Bytes := [Utf8.encode ".git", Utf8.encode "info", Utf8.encode "exclude"]

/-- The lines of a file below a directory, if there is one that can be read. -/
def linesAt (t : FileTree) (directory : Location) (segments : List Bytes) : List Line :=
  match t.follow .existing FileTree.linkLimit directory segments with
  | .error _ => []
  | .ok location =>
    match (t.root.at? location).map t.openNode with
    | some (.ok ⟨content, none⟩) => readLines content
    | _ => []

def levelAt (t : FileTree) (directory : Location) : Level :=
  ⟨directory, linesAt t directory ownFile, linesAt t directory versionedFile,
    linesAt t directory excludedFile⟩

/-- The levels of a directory, the deepest first. -/
def levels (t : FileTree) (directory : Location) : List Level :=
  (List.range (directory.length + 1)).reverse.map fun depth => levelAt t (directory.take depth)

/-- What one kind of ignore file says about an entry. -/
def decisionOf (kind : Level → List Line) (levels : List Level) (entry : Location)
    (isDirectory : Bool) : Option Bool :=
  levels.findSome? fun level =>
    leavesOut? (kind level) (Path.join (entry.drop level.location.length)) isDirectory

def leavesOut (levels : List Level) (entry : Location) (isDirectory : Bool) : Bool :=
  let decision := (decisionOf Level.own levels entry isDirectory)
    <|> (decisionOf Level.versioned levels entry isDirectory)
    <|> (decisionOf Level.excluded levels entry isDirectory)
  decision.getD false

end FileCensus.Ignore
