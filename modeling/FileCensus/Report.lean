import FileCensus.Attribute

/-!
# Reports

What a comparison found: for each path that differs the attributes that do, and the paths that only
one side has.
-/

namespace FileCensus

structure Difference where
  subject : Attribute
  left : String
  right : String
  deriving DecidableEq, Repr

/-- The differences of one path. -/
structure Trace where
  path : String
  leftLabel : String
  rightLabel : String
  differences : List Difference
  deriving DecidableEq, Repr

structure Report where
  leftLabel : String
  rightLabel : String
  traces : List Trace
  onlyInLeft : List String
  onlyInRight : List String
  deriving DecidableEq, Repr

namespace Trace

def difference? (t : Trace) (a : Attribute) : Option Difference :=
  t.differences.find? (·.subject = a)

/-- A line for the path and one for each difference. -/
def text (t : Trace) : String :=
  "[" ++ t.leftLabel ++ "] file \"" ++ t.path ++ "\" differs from [" ++ t.rightLabel ++ "]:\n"
    ++ String.join (t.differences.map fun d =>
      "    " ++ d.subject.label ++ ": " ++ d.left ++ " vs " ++ d.right ++ "\n")

end Trace

namespace Report

def isEqual (r : Report) : Bool :=
  r.traces.isEmpty && r.onlyInLeft.isEmpty && r.onlyInRight.isEmpty

def traceFor? (r : Report) (path : String) : Option Trace := r.traces.find? (·.path = path)

end Report

end FileCensus
