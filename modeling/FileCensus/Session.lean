import FileCensus.CommandLine
import FileCensus.CommandLine.Guide
import FileCensus.Compare
import FileCensus.Document.Reader
import FileCensus.Document.Writer
import FileCensus.Report.Json
import FileCensus.Report.Table
import FileCensus.Scan

/-!
# Sessions

What a command line does to the files that it runs on, and what it prints. A side of a comparison is
a snapshot in a file or, where its path names a directory, the directory as it is.
-/

namespace FileCensus

/-- The files that a command line runs on, and the origin and time of what it writes. -/
structure Session where
  tree : FileTree
  origin : Document.Origin
  now : Int

/-- The exit status, what is printed as the result and as a message to the user, and the files
afterwards. -/
structure Outcome where
  status : Nat
  output : String
  message : String
  tree : FileTree

/-- The path of a directory as it was given, or its last name if it has one. -/
def FileTree.defaultName (t : FileTree) (directory : String) : String :=
  match t.resolve .existing (Utf8.encode directory) with
  | .error _ => directory
  | .ok location =>
    match location.getLast? with
    | none => directory
    | some name => Utf8.decodeLossy name

/-- Scans a target that is found to be a directory. -/
def FileTree.scanChecked (t : FileTree) (settings : ScanSettings) (name : String) :
    Except Fault Snapshot :=
  match settings.validate t with
  | .error fault => .error fault
  | .ok () => (settings.scan t name .none).map ScanResult.snapshot

/-- The snapshot in a file. -/
def FileTree.load (t : FileTree) (path : Bytes) : Except Fault Snapshot :=
  match t.openPath path with
  | .error cause => .error (.io cause)
  | .ok source => Document.readSource source

/-- A snapshot without a name gets another. -/
def Snapshot.named (s : Snapshot) (name : String) : Snapshot :=
  if s.name.isEmpty then s.rename name else s

/-- One side of a comparison. -/
def FileTree.side (t : FileTree) (path : String) (options : CheckOptions) :
    Except Fault Snapshot :=
  if t.isDirectory (Utf8.encode path) then
    match options.settings (Utf8.encode path) with
    | .error fault => .error fault
    | .ok settings => t.scanChecked settings path
  else (t.load (Utf8.encode path)).map (·.named path)

def ReportFormat.render : ReportFormat → Report → String
  | .table, r => r.table
  | .json, r => r.json

namespace Session

/-- The files after a snapshot of a directory has been written to the output. -/
def take (s : Session) (directory output : String) (name : Option String)
    (options : CheckOptions) : Except Fault FileTree :=
  match options.settings (Utf8.encode directory) with
  | .error fault => .error fault
  | .ok settings =>
    let settings := { settings with output := some (Utf8.encode output) }
    match s.tree.scanChecked settings (name.getD (s.tree.defaultName directory)) with
    | .error fault => .error fault
    | .ok snapshot =>
      (s.tree.write (Utf8.encode output) (Document.writeBytes s.origin snapshot) s.now).mapError .io

/-- The report on two sides under the policy of the options. -/
def compare (s : Session) (left right : String) (options : CheckOptions) : Except Fault Report :=
  match options.settings (Utf8.encode left) with
  | .error fault => .error fault
  | .ok settings =>
    match s.tree.side left options with
    | .error fault => .error fault
    | .ok l => (s.tree.side right options).map fun r => settings.policy.compareSnapshots l r

/-- The end of a run in which nothing was changed. -/
def finish (s : Session) (status : Nat) (output message : String) : Outcome :=
  ⟨status, output, message, s.tree⟩

def fail (s : Session) (fault : Fault) : Outcome := s.finish 1 "" fault.message

def perform (s : Session) : Command → Outcome
  | .take directory output name options =>
    match s.take directory output name options with
    | .error fault => s.fail fault
    | .ok tree => ⟨0, "", "", tree⟩
  | .compare left right format options =>
    match s.compare left right options with
    | .error fault => s.fail fault
    | .ok report => s.finish (if report.isEqual then 0 else 1) (format.render report ++ "\n") ""
  | .completions shell => s.finish 0 (Guide.completions shell) ""

/-- Runs the words after the program's name. -/
def run (s : Session) (words : List String) : Outcome :=
  match CommandLine.read words with
  | .ok line => s.perform line.command
  | .error .asksHelp => s.finish 0 Guide.help ""
  | .error .asksVersion => s.finish 0 Guide.version ""
  | .error fault => s.finish 2 "" (Guide.usage fault)

end Session

end FileCensus
