import FileCensus.Markup.Reference
import FileCensus.Snapshot

/-!
# Writing snapshots

A snapshot is written as one element with an empty element for each file, in the order of the paths.
An attribute that was not captured is left out.
-/

namespace FileCensus.Document

/-- Where and when a document is written, as its outermost element tells it. -/
structure Origin where
  host : String
  created : String
  deriving DecidableEq, Repr

def systemName : String := "linux"

def attributeText (key value : String) : List Char :=
  ' ' :: key.toList ++ '=' :: '"' :: Markup.escape value.toList ++ ['"']

def fileAttributes (r : Record) : List (String × String) :=
  ("path", r.path.text)
    :: Attribute.all.filterMap fun a => (r.shownValue a).map fun value => (a.name, value)

def attributesText (attributes : List (String × String)) : List Char :=
  attributes.flatMap fun (key, value) => attributeText key value

def fileText (r : Record) : List Char :=
  "\n  <file".toList ++ attributesText (fileAttributes r) ++ "/>".toList

def rootAttributes (origin : Origin) (name : String) : List (String × String) :=
  [("name", name), ("host", origin.host), ("os", systemName),
    ("created", origin.created)]

def openingText (origin : Origin) (name : String) : List Char :=
  "<?xml version=\"1.0\" encoding=\"UTF-8\"?>\n<snapshot".toList
    ++ attributesText (rootAttributes origin name) ++ ['>']

def closingText : List Char := "\n</snapshot>".toList

def write (origin : Origin) (s : Snapshot) : String :=
  String.ofList (openingText origin s.name ++ s.files.flatMap fileText ++ closingText)

def writeBytes (origin : Origin) (s : Snapshot) : Bytes := Utf8.encode (write origin s)

end FileCensus.Document
