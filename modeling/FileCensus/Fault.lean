import FileCensus.Attribute
import FileCensus.Markup.Fault
import FileCensus.Policy.Rule

/-!
# Faults

Everything that can go wrong in a run, by its cause, and the text that reports it.
-/

namespace FileCensus

/-- How a document is no snapshot although its markup is sound. -/
inductive Malformation where
  | noRoot
  | truncated
  | wrongRoot (name : String)
  | secondRoot
  | badSize (text : String)
  | badTime (text : String)
  | noPath
  | duplicatePath (path : String)
  | stated (text : String)
  deriving DecidableEq, Repr

def timestampMessage (text : String) : String := "Invalid timestamp: " ++ text

def Malformation.message : Malformation → String
  | .noRoot => "document has no root element"
  | .truncated => "document is truncated"
  | .wrongRoot name => s!"root element is <{name}>, expected <snapshot>"
  | .secondRoot => "document has more than one root element"
  | .badSize text => s!"invalid size '{text}'"
  | .badTime text => timestampMessage text
  | .noPath => "missing required 'path' attribute"
  | .duplicatePath path => s!"duplicate path '{path}'"
  | .stated text => text

inductive ConfigurationFault where
  | noTarget (path : String)
  | noThreads
  | stated (text : String)
  deriving DecidableEq, Repr

def ConfigurationFault.message : ConfigurationFault → String
  | .noTarget path => "Target directory not found: " ++ path
  | .noThreads => "Thread count must be at least 1"
  | .stated text => text

inductive Fault where
  | unsupported (a : Attribute) (path : String)
  | capture (path : String) (cause : IoFault)
  | io (cause : IoFault)
  | markup (fault : Markup.Fault)
  | malformed (node : Nat) (reason : Malformation)
  | timestamp (text : String)
  | configuration (reason : ConfigurationFault)
  | rule (fault : RuleFault)
  deriving DecidableEq, Repr

namespace Fault

def message : Fault → String
  | .unsupported a path => s!"Attribute {a.name} is not supported on this platform (file {path})"
  | .capture path cause => s!"Failed to capture {path}: {cause.text}"
  | .io cause => "IO error: " ++ cause.text
  | .markup fault => "XML error: " ++ fault.message
  | .malformed node reason => s!"Malformed snapshot at file node {node}: {reason.message}"
  | .timestamp text => timestampMessage text
  | .configuration reason => "Configuration error: " ++ reason.message
  | .rule fault => "Invalid rule: " ++ fault.message

/-- Whether the fault only says that the system does not know the attribute. -/
def isUnsupported : Fault → Bool
  | .unsupported .. => true
  | _ => false

/-- The failure with which a run ends: the one at the bottom of the fault, or its text. -/
def toIo : Fault → IoFault
  | .io cause => cause
  | .capture _ cause => cause
  | fault => .described .other fault.message

end Fault

end FileCensus
