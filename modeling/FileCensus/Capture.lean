import FileCensus.Fault
import FileCensus.FileTree.Access
import FileCensus.Policy.Checks
import FileCensus.Record

/-!
# Capturing files

The attributes of a file that are checked are read one after the other. The first failure ends the
capture, except that permissions which the system does not know are left unknown.
-/

namespace FileCensus

/-- What reading each attribute of one file gives. -/
structure Reads where
  size : Except Fault UInt64
  modified : Except Fault Int64
  digest : HashMode → Except Fault String
  permissions : Except Fault String

/-- A read that was made. -/
inductive Read where
  | size
  | modified
  | digest (mode : HashMode)
  | permissions
  deriving DecidableEq, Repr

def Read.of (mode : HashMode) : Attribute → Read
  | .size => .size
  | .modified => .modified
  | .md5 => .digest mode
  | .permissions => .permissions

/-- A finished capture, and the reads made for it in their order. -/
structure Capture where
  made : List Read
  outcome : Except Fault Record

namespace Reads

/-- The record with one attribute more. -/
def fill (reads : Reads) (mode : HashMode) (r : Record) : Attribute → Except Fault Record
  | .size => reads.size.map fun size => { r with size := some size }
  | .modified => reads.modified.map fun millis => { r with modified := some millis }
  | .md5 => (reads.digest mode).map fun digest => { r with md5 := some digest }
  | .permissions =>
    match reads.permissions with
    | .ok permissions => .ok { r with permissions := some permissions }
    | .error fault => if fault.isUnsupported then .ok r else .error fault

def fillAll (reads : Reads) (mode : HashMode) : List Attribute → Record → Capture
  | [], r => ⟨[], .ok r⟩
  | a :: rest, r =>
    match reads.fill mode r a with
    | .error fault => ⟨[.of mode a], .error fault⟩
    | .ok r =>
      let next := fillAll reads mode rest r
      ⟨.of mode a :: next.made, next.outcome⟩

/-- Captures a file under a path, as the checks and the rule of the file say. -/
def capture (reads : Reads) (checks : Checks) (rule : Option Rule) (path : NormalPath) : Capture :=
  reads.fillAll checks.hashMode (Attribute.all.filter (shouldCheck checks rule)) (.unknown path)

end Reads

namespace FileTree

/-- The reads of the node that a path names; every failure names the path. -/
def reads (t : FileTree) (path : Bytes) : Reads where
  size := (t.stat path).map (fun s => UInt64.ofNat s.size) |>.mapError failed
  modified := (t.stat path).map (fun s => Int64.ofInt s.modified) |>.mapError failed
  digest mode := (t.openPath path >>= fun s => Content.digest mode s.deliveries).mapError failed
  permissions :=
    match t.stat path with
    | .error cause => .error (failed cause)
    | .ok s =>
      match s.permissions with
      | some permissions => .ok permissions
      | none => .error (.unsupported .permissions (Utf8.decodeLossy path))
where
  failed (cause : IoFault) : Fault := .capture (Utf8.decodeLossy path) cause

/-- Captures the file that a path names under the path itself. -/
def captureAt (t : FileTree) (path : Bytes) (checks : Checks) (rule : Option Rule) : Capture :=
  (t.reads path).capture checks rule (.of (Utf8.decodeLossy path))

end FileTree

end FileCensus
