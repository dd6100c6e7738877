import FileCensus.Scan

/-!
# Scanners

A scanner scans its target again and again, each time as the files are then. It keeps statistics from
one scan to the next: whatever is left out adds a failure at once, and a scan that gives a snapshot
sets the number of captured files at its end.
-/

namespace FileCensus

/-- An order in which the workers of a scan finish its files. -/
structure Schedule where
  order : List Location → List Location
  perm : ∀ files, (order files).Perm files

def Schedule.sequential : Schedule := ⟨id, fun _ => .refl _⟩

/-- What a scan meets: the files and what reading them gives, and the workers that capture them or the
reason why there are none. -/
structure Occasion where
  tree : FileTree
  operations : Location → Reads
  workers : Except String Schedule
  name : String

namespace Occasion

/-- The workers finish the files in their order. -/
def inOrder (tree : FileTree) (operations : Location → Reads) (name : String) : Occasion :=
  ⟨tree, operations, .ok .sequential, name⟩

/-- What reading the files below a location gives. -/
def readsAt (o : Occasion) (root here : Location) : Reads := o.operations (root ++ here)

end Occasion

/-- A part of a scan, which may end the scan and change the statistics. -/
abbrev Scanning := ExceptT Fault (StateM Statistics)

namespace Scanning

def record (failure : CaptureFailure) : Scanning Unit :=
  modify fun statistics => { statistics with failures := statistics.failures ++ [failure] }

def count (captured : Nat) : Scanning Unit :=
  modify fun statistics => { statistics with captured }

/-- What cannot be read, under its path, ends the scan or is left out. -/
def meet (policy : FailurePolicy) (path : String) (fault : Fault) : Scanning Unit :=
  match policy with
  | .abort => throw fault
  | .skip => record (.of path fault)

def meetAll (policy : FailurePolicy) (faults : List (String × Fault)) : Scanning Unit :=
  faults.forM fun (path, fault) => meet policy path fault

/-- Inserts records in order, with a failure for each that replaces another. -/
def gather : Snapshot → List Record → Scanning Snapshot
  | s, [] => pure s
  | s, r :: rest => do
    let (replaced, s) := s.insert r
    if replaced.isSome then record (collision r.path.text)
    gather s rest

end Scanning

def noWorkers (text : String) : Fault :=
  .configuration (.stated ("Failed to build thread pool: " ++ text))

namespace ScanSettings

/-- The faults of the files that cannot be captured, under the paths of the files. -/
def captureFaults (s : ScanSettings) (reads : Location → Reads) (files : List Location) :
    List (String × Fault) :=
  files.filterMap fun here =>
    match s.capture reads here with
    | .ok _ => none
    | .error fault => some (here.recordedPath, fault)

/-- Walks below a location for the files to capture. -/
def collect (s : ScanSettings) (t : FileTree) (root : Location) : Scanning (List Location) := do
  Scanning.meetAll s.onFailure (s.unlistedFaults t root)
  return s.selected t root

/-- Captures files. Their faults are met in the order in which workers finish, but the records come in
the order of the files. -/
def captureEach (s : ScanSettings) (reads : Location → Reads) (schedule : Schedule)
    (files : List Location) : Scanning (List Record) := do
  Scanning.meetAll s.onFailure (s.captureFaults reads (schedule.order files))
  return files.filterMap fun here => (s.capture reads here).toOption

def assembleAt (s : ScanSettings) (o : Occasion) (root : Location) : Scanning Snapshot := do
  let files ← s.collect o.tree root
  match o.workers with
  | .error text => throw (noWorkers text)
  | .ok schedule =>
    let records ← s.captureEach (o.readsAt root) schedule files
    Scanning.gather (.empty o.name) records

/-- The steps of a scan up to its snapshot. -/
def assemble (s : ScanSettings) (o : Occasion) : Scanning Snapshot :=
  match o.tree.resolve .existing s.target with
  | .error cause => throw (.io cause)
  | .ok root => s.assembleAt o root

def scanning (s : ScanSettings) (o : Occasion) : Scanning Snapshot := do
  let snapshot ← s.assemble o
  Scanning.count snapshot.size
  return snapshot

end ScanSettings

structure Scanner where
  settings : ScanSettings
  statistics : Statistics

namespace Scanner

def fresh (settings : ScanSettings) : Scanner := ⟨settings, .none⟩

/-- One scan, and the scanner after it. -/
def scan (scanner : Scanner) (o : Occasion) : Except Fault Snapshot × Scanner :=
  let (outcome, statistics) := (scanner.settings.scanning o).run.run scanner.statistics
  (outcome, { scanner with statistics })

/-- The scanner after scans one after another, however they end. -/
def after (scanner : Scanner) (occasions : List Occasion) : Scanner :=
  occasions.foldl (fun scanner o => (scanner.scan o).2) scanner

end Scanner

end FileCensus
