import FileCensus.FileTree.Access
import FileCensus.Policy.Checks
import FileCensus.Fault

/-!
# Scan settings

What a scan of a directory is asked to do, and which file names it takes.
-/

namespace FileCensus

/-- What a scan does about a file that cannot be captured: it ends, or leaves the file out. -/
inductive FailurePolicy where
  | abort
  | skip
  deriving DecidableEq, Repr

/-- The output is the file that the scan's snapshot is to be written to. -/
structure ScanSettings where
  target : Bytes
  output : Option Bytes
  policy : Policy
  ignorePatterns : List String
  includePatterns : List String
  respectsIgnoreFiles : Bool
  threads : Nat
  onFailure : FailurePolicy
  deriving DecidableEq, Repr

namespace ScanSettings

/-- The names that no scan looks at below its target. -/
def alwaysIgnored : List String :=
  [".git", ".svn", ".hg", ".bzr", ".DS_Store", "Thumbs.db", "desktop.ini", "ehthumbs.db", "*.swp",
    "*.swo", "*~"]

def matchesAny (patterns : List String) (name : String) : Bool :=
  patterns.any fun pattern => Glob.isMatch pattern name

def isAlwaysIgnored (name : Path.Name) : Bool := matchesAny alwaysIgnored (Utf8.decodeLossy name)

/-- Whether the settings ignore files of this name. -/
def ignores (s : ScanSettings) (name : String) : Bool := matchesAny s.ignorePatterns name

/-- Whether the settings include files of this name; without patterns they include all. -/
def includes (s : ScanSettings) (name : String) : Bool :=
  s.includePatterns.isEmpty || matchesAny s.includePatterns name

def validate (s : ScanSettings) (t : FileTree) : Except Fault Unit :=
  if !t.isDirectory s.target then
    .error (.configuration (.noTarget (Utf8.decodeLossy s.target)))
  else if s.threads = 0 then .error (.configuration .noThreads)
  else .ok ()

end ScanSettings

end FileCensus
