import FileCensus.Fault
import FileCensus.Markup.Event
import FileCensus.Markup.Reference
import FileCensus.Snapshot

/-!
# Reading snapshots

The events of a document are taken one by one. The outermost element must be the only one and be
named snapshot; every element named file directly inside it adds a record. Other elements and
attributes under other names are passed over. The first fault in the order of the events ends the
reading, and a document in which the outermost element is not closed gives no snapshot.
-/

namespace FileCensus.Document

open Markup

def rootName : Bytes := Utf8.encode "snapshot"

def fileName : Bytes := Utf8.encode "file"

def nameKey : Bytes := Utf8.encode "name"

/-- What is known of a file from some of its attributes. -/
structure Entry where
  path : Option String
  size : Option UInt64
  modified : Option Int64
  md5 : Option String
  permissions : Option String
  deriving DecidableEq

namespace Entry

def empty : Entry := ⟨none, none, none, none, none⟩

/-- Adds the value of an attribute under exactly its written name. -/
def set (node : Nat) (entry : Entry) (key value : String) : Except Fault Entry :=
  if key = "path" then .ok { entry with path := some value }
  else
    match Attribute.ofName? key with
    | none => .ok entry
    | some .size =>
      match Numeral.readNat Numeral.maxSize value.toList with
      | .ok n => .ok { entry with size := some (UInt64.ofNat n) }
      | .error _ => .error (.malformed node (.badSize value))
    | some .modified =>
      match Stamp.parse value with
      | some millis => .ok { entry with modified := some (Int64.ofInt millis) }
      | none => .error (.malformed node (.badTime value))
    | some .md5 => .ok { entry with md5 := some value }
    | some .permissions => .ok { entry with permissions := some value }

def setRaw (node : Nat) (entry : Entry) (a : RawAttribute) : Except Fault Entry :=
  match unescape a.value with
  | .error fault => .error (.markup fault)
  | .ok value => entry.set node (Utf8.decodeLossy a.key) value

def setAll (node : Nat) : Entry → List RawAttribute → Except Fault Entry
  | entry, [] => .ok entry
  | entry, a :: rest =>
    match entry.setRaw node a with
    | .error fault => .error fault
    | .ok entry => setAll node entry rest

def toRecord (entry : Entry) (path : String) : Record :=
  ⟨.of path, entry.size, entry.modified, entry.md5, entry.permissions⟩

end Entry

/-- The record of a file element, the `node`th of its document. -/
def record (node : Nat) (tag : Tag) : Except Fault Record :=
  let attributes := tag.attributes true
  match Entry.empty.setAll node attributes.found with
  | .error fault => .error fault
  | .ok entry =>
    match attributes.fault with
    | some (position, fault) => .error (.markup (.attribute position fault))
    | none =>
      match entry.path with
      | none => .error (.malformed node .noPath)
      | some path => .ok (entry.toRecord path)

/-- The name in the outermost element; the attributes after it are not looked at. -/
def snapshotName (tag : Tag) : Except Fault String :=
  let attributes := tag.attributes false
  match attributes.found.find? (·.key = nameKey) with
  | some a => (unescape a.value).mapError .markup
  | none =>
    match attributes.fault with
    | some (position, fault) => .error (.markup (.attribute position fault))
    | none => .ok ""

/-- The snapshot so far, how many elements are open, how many files there were, and whether the
outermost element was closed. -/
structure Progress where
  snapshot : Option Snapshot
  depth : Nat
  files : Nat
  closed : Bool

namespace Progress

def start : Progress := ⟨none, 0, 0, false⟩

def addFile (p : Progress) (s : Snapshot) (tag : Tag) : Except Fault Progress :=
  match record (p.files + 1) tag with
  | .error fault => .error fault
  | .ok r =>
    if (s.get? r.path.text).isSome then
      .error (.malformed (p.files + 1) (.duplicatePath r.path.text))
    else .ok { p with snapshot := some (s.insert r).2, files := p.files + 1 }

/-- What an element that begins here adds. -/
def enter (p : Progress) (tag : Tag) : Except Fault Progress :=
  match p.depth, p.snapshot with
  | 0, none =>
    if tag.name ≠ rootName then .error (.malformed 0 (.wrongRoot (Utf8.decodeLossy tag.name)))
    else (snapshotName tag).map fun name => { p with snapshot := some (.empty name) }
  | 0, some _ => .error (.malformed 0 .secondRoot)
  | 1, some s => if tag.name = fileName then p.addFile s tag else .ok p
  | _, _ => .ok p

def step (p : Progress) : Event → Except Fault Progress
  | .opening tag => (p.enter tag).map fun p => { p with depth := p.depth + 1 }
  | .selfClosing tag =>
    (p.enter tag).map fun p => if p.depth = 0 then { p with closed := true } else p
  | .closing =>
    .ok { p with depth := p.depth - 1, closed := p.closed || p.depth ≤ 1 }

def steps (p : Progress) : List Event → Except Fault Progress
  | [] => .ok p
  | e :: rest =>
    match p.step e with
    | .error fault => .error fault
    | .ok p => steps p rest

def finish (p : Progress) : Except Fault Snapshot :=
  match p.snapshot with
  | none => .error (.malformed 0 .noRoot)
  | some s => if p.closed then .ok s else .error (.malformed 0 .truncated)

end Progress

def readEvents (events : EventList) : Except Fault Snapshot :=
  match Progress.start.steps events.found with
  | .error fault => .error fault
  | .ok p =>
    match events.fault with
    | some fault => .error (.markup fault)
    | none => p.finish

def readSource (source : Source) : Except Fault Snapshot := readEvents (events source)

def readBytes (bytes : Bytes) : Except Fault Snapshot := readSource (.whole bytes)

def read (text : String) : Except Fault Snapshot := readBytes (Utf8.encode text)

end FileCensus.Document
