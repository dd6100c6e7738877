import FileCensus.Capture
import FileCensus.Ignore.Levels
import FileCensus.Scan.Settings
import FileCensus.Scan.Walk
import FileCensus.Snapshot

/-!
# Scans

A scan selects the files below its target, captures them in the order of their locations and gathers
the records in a snapshot. Directories that cannot be listed and files that cannot be captured end
the scan or are counted as failures, as the settings say. Of several files with one normal path the
last is kept, and each one that it replaces is a failure.
-/

namespace FileCensus

/-- A file or directory that is missing from a snapshot. -/
structure CaptureFailure where
  path : String
  error : String
  deriving DecidableEq, Repr

/-- How many files the last scan captured, and the failures of all scans so far. -/
structure Statistics where
  captured : Nat
  failures : List CaptureFailure
  deriving DecidableEq, Repr

def Statistics.none : Statistics := ⟨0, []⟩

/-- The path under which a file below the target is recorded. -/
def Location.recordedPath (l : Location) : String :=
  Path.normalize (Utf8.decodeLossy (Path.join l))

namespace FileTree

/-- The filter of a walk that begins at `root` and respects ignore files. -/
def ignoreFilter (t : FileTree) (root : Location) : WalkFilter where
  Known := Location × List Ignore.Level
  survey here := (root ++ here, Ignore.levels t (root ++ here))
  keeps known name isDirectory :=
    !Ignore.leavesOut known.2 (known.1 ++ [name]) isDirectory
      && !ScanSettings.isAlwaysIgnored name

end FileTree

namespace ScanSettings

def filter (s : ScanSettings) (t : FileTree) (root : Location) : WalkFilter :=
  if s.respectsIgnoreFiles then t.ignoreFilter root
  else .byName fun name => !isAlwaysIgnored name

/-- Everything that the walk from `root` finds. A target that is a file is found only by a walk that
respects ignore files. -/
def found (s : ScanSettings) (t : FileTree) (root : Location) : List Found :=
  match t.root.at? root with
  | none => []
  | some n =>
    if n.isDirectory || s.respectsIgnoreFiles then t.walk (s.filter t root) true [] n else []

def outputLocation? (s : ScanSettings) (t : FileTree) : Option Location :=
  s.output.bind t.entryLocation?

/-- Whether the file at a location is one to capture: it is not the output, and its name is not
ignored and is included. -/
def takes (s : ScanSettings) (t : FileTree) (location : Location) : Bool :=
  let name := Utf8.decodeLossy (location.getLastD [])
  !(s.outputLocation? t = some location) && !s.ignores name && s.includes name

/-- The files to capture, by their locations below the target, in ascending order. -/
def selected (s : ScanSettings) (t : FileTree) (root : Location) : List Location :=
  (((s.found t root).filterMap Found.file?).filter fun here => s.takes t (root ++ here)).mergeSort
    fun a b => a ≤ b

def shownLocation (l : Location) : String := Utf8.decodeLossy l.path

/-- The fault of a directory that cannot be listed. With ignore files it does not name a file. -/
def unlistedFault (s : ScanSettings) (root here : Location) : String × Fault :=
  let place := shownLocation (root ++ here)
  let text := s!"IO error for operation on {place}: {(IoFault.system .denied).text}"
  if s.respectsIgnoreFiles then
    ("", .capture "" (.described .other (place ++ ": " ++ text)))
  else (here.recordedPath, .capture here.recordedPath (.described .other text))

def unlistedFaults (s : ScanSettings) (t : FileTree) (root : Location) : List (String × Fault) :=
  ((s.found t root).filterMap Found.unlisted?).map (s.unlistedFault root)

/-- The capture of one file below the target. -/
def capture (s : ScanSettings) (reads : Location → Reads) (here : Location) :
    Except Fault Record :=
  let path := here.recordedPath
  ((reads here).capture s.policy.checks (s.policy.rules.ruleFor path) (.of path)).outcome

end ScanSettings

def CaptureFailure.of (path : String) (fault : Fault) : CaptureFailure := ⟨path, fault.message⟩

def collision (path : String) : CaptureFailure :=
  .of path (.capture path (.described .alreadyExists "path collides with another file"))

/-- Inserts records in order, with a collision for each that replaces another. -/
def Snapshot.gather : Snapshot → List Record → Snapshot × List CaptureFailure
  | s, [] => (s, [])
  | s, r :: rest =>
    let (replaced, s) := s.insert r
    let (final, failures) := gather s rest
    (final, (replaced.toList.map fun _ => collision r.path.text) ++ failures)

structure ScanResult where
  snapshot : Snapshot
  statistics : Statistics
  selected : Nat

/-- The values up to the first fault. -/
def firstFault {α : Type} : List (Except Fault α) → Except Fault (List α)
  | [] => .ok []
  | .error fault :: _ => .error fault
  | .ok x :: rest => (firstFault rest).map (x :: ·)

namespace ScanSettings

/-- The records of the selected files, and the failures of those and of directories that are left
out. -/
def captureAll (s : ScanSettings) (t : FileTree) (root : Location) (reads : Location → Reads) :
    Except Fault (List Record × List CaptureFailure) :=
  let unlisted := s.unlistedFaults t root
  let outcomes := (s.selected t root).map fun here => (here, s.capture reads here)
  match s.onFailure with
  | .abort =>
    match unlisted with
    | (_, fault) :: _ => .error fault
    | [] => (firstFault (outcomes.map (·.2))).map fun records => (records, [])
  | .skip =>
    .ok (outcomes.filterMap fun o => o.2.toOption,
      (unlisted.map fun u => .of u.1 u.2) ++ outcomes.filterMap fun o =>
        match o.2 with
        | .ok _ => none
        | .error fault => some (.of o.1.recordedPath fault))

/-- Scans below a location, after scans that left some statistics. -/
def scanAt (s : ScanSettings) (t : FileTree) (root : Location) (reads : Location → Reads)
    (name : String) (before : Statistics) : Except Fault ScanResult :=
  match s.captureAll t root reads with
  | .error fault => .error fault
  | .ok (records, failures) =>
    let (snapshot, collisions) := (Snapshot.empty name).gather records
    .ok ⟨snapshot, ⟨snapshot.size, before.failures ++ failures ++ collisions⟩,
      (s.selected t root).length⟩

/-- The reads of the files below a location. -/
def localReads (t : FileTree) (root here : Location) : Reads := t.reads (root ++ here).path

/-- Scans the target. -/
def scan (s : ScanSettings) (t : FileTree) (name : String) (before : Statistics) :
    Except Fault ScanResult :=
  match t.resolve .existing s.target with
  | .error cause => .error (.io cause)
  | .ok root => s.scanAt t root (localReads t root) name before

end ScanSettings

end FileCensus
