import FileCensus.Json.Printer
import FileCensus.Json.Reader
import FileCensus.Report

/-!
# Reports as JSON

A report is printed with its members in a fixed order. It is read back from objects that hold at
least these members, in any order, or from arrays that hold them in this order.
-/

namespace FileCensus

open Json

namespace Difference

def json (depth : Nat) (d : Difference) : List Char :=
  object depth
    [field "attribute" (string d.subject.name), field "left" (string d.left),
      field "right" (string d.right)]

def readName : Reader Attribute := do
  require (Attribute.ofName? (← string?))

/-- An attribute's name, alone or as the key of a null. -/
def readSubject : Reader Attribute :=
  peek .ended fun c =>
    if c = '"' then readName
    else if c = '\x7b' then do
      let a ← advance readName
      colon
      peek .ended fun c => if c = 'n' then advance (expectWord "ull".toList) else otherShape
      endObject
      pure a
    else fail .malformed

structure Draft where
  subject : Option Attribute
  left : Option String
  right : Option String

def Draft.add (key : String) (d : Draft) : Reader Draft :=
  if key = "attribute" then do return { d with subject := ← once d.subject readSubject }
  else if key = "left" then do return { d with left := ← once d.left string? }
  else if key = "right" then do return { d with right := ← once d.right string? }
  else do
    skipMember
    return d

def Draft.finish (d : Draft) : Reader Difference := do
  return ⟨← require d.subject, ← require d.left, ← require d.right⟩

def read : Reader Difference :=
  structured (do return ⟨← item true readSubject, ← item false string?, ← item false string?⟩)
    ⟨none, none, none⟩ Draft.add Draft.finish

end Difference

namespace Trace

def json (depth : Nat) (t : Trace) : List Char :=
  object depth
    [field "path" (string t.path), field "left_label" (string t.leftLabel),
      field "right_label" (string t.rightLabel),
      field "differences" (array (depth + 1) (t.differences.map (Difference.json (depth + 2))))]

structure Draft where
  path : Option String
  leftLabel : Option String
  rightLabel : Option String
  differences : Option (List Difference)

def Draft.add (key : String) (d : Draft) : Reader Draft :=
  if key = "path" then do return { d with path := ← once d.path string? }
  else if key = "left_label" then do return { d with leftLabel := ← once d.leftLabel string? }
  else if key = "right_label" then do return { d with rightLabel := ← once d.rightLabel string? }
  else if key = "differences" then do
    return { d with differences := ← once d.differences (list Difference.read) }
  else do
    skipMember
    return d

def Draft.finish (d : Draft) : Reader Trace := do
  return ⟨← require d.path, ← require d.leftLabel, ← require d.rightLabel, ← require d.differences⟩

def read : Reader Trace :=
  structured
    (do return ⟨← item true string?, ← item false string?, ← item false string?,
      ← item false (list Difference.read)⟩)
    ⟨none, none, none, none⟩ Draft.add Draft.finish

end Trace

namespace Report

def stringArray (texts : List String) : List Char := array 1 (texts.map string)

def jsonChars (r : Report) : List Char :=
  object 0
    [field "left_label" (string r.leftLabel), field "right_label" (string r.rightLabel),
      field "traces" (array 1 (r.traces.map (Trace.json 2))),
      field "only_in_left" (stringArray r.onlyInLeft),
      field "only_in_right" (stringArray r.onlyInRight)]

def json (r : Report) : String := String.ofList r.jsonChars

structure Draft where
  leftLabel : Option String
  rightLabel : Option String
  traces : Option (List Trace)
  onlyInLeft : Option (List String)
  onlyInRight : Option (List String)

def Draft.add (key : String) (d : Draft) : Reader Draft :=
  if key = "left_label" then do return { d with leftLabel := ← once d.leftLabel string? }
  else if key = "right_label" then do return { d with rightLabel := ← once d.rightLabel string? }
  else if key = "traces" then do return { d with traces := ← once d.traces (list Trace.read) }
  else if key = "only_in_left" then do
    return { d with onlyInLeft := ← once d.onlyInLeft (list string?) }
  else if key = "only_in_right" then do
    return { d with onlyInRight := ← once d.onlyInRight (list string?) }
  else do
    skipMember
    return d

def Draft.finish (d : Draft) : Reader Report := do
  return ⟨← require d.leftLabel, ← require d.rightLabel, ← require d.traces,
    ← require d.onlyInLeft, ← require d.onlyInRight⟩

def read : Reader Report :=
  structured
    (do return ⟨← item true string?, ← item false string?, ← item false (list Trace.read),
      ← item false (list string?), ← item false (list string?)⟩)
    ⟨none, none, none, none, none⟩ Draft.add Draft.finish

/-- The report that a JSON text stands for. -/
def ofJson (text : String) : Except Flaw Report := readAll read text

end Report

end FileCensus
