import FileCensus.Scan.Settings
import FileCensus.Text.Choice

/-!
# Arguments

The arguments that a command line can hold, by what they mean: the names under which they are given,
whether they take a value and how often, and which values they take.
-/

namespace FileCensus

instance : Choice HashMode := ⟨[.binary, .text], HashMode.name⟩

def FailurePolicy.name : FailurePolicy → String
  | .abort => "abort"
  | .skip => "skip"

instance : Choice FailurePolicy := ⟨[.abort, .skip], FailurePolicy.name⟩

inductive ReportFormat where
  | table
  | json
  deriving DecidableEq, Repr

def ReportFormat.name : ReportFormat → String
  | .table => "table"
  | .json => "json"

instance : Choice ReportFormat := ⟨[.table, .json], ReportFormat.name⟩

/-- The shells for which completions are written. -/
inductive Shell where
  | bash
  | elvish
  | fish
  | powershell
  | zsh
  deriving DecidableEq, Repr

def Shell.name : Shell → String
  | .bash => "bash"
  | .elvish => "elvish"
  | .fish => "fish"
  | .powershell => "powershell"
  | .zsh => "zsh"

instance : Choice Shell := ⟨[.bash, .elvish, .fish, .powershell, .zsh], Shell.name⟩

/-- Why a command line is not run: it is not understood, or it asks for a text about the program. -/
inductive UsageFault where
  | nothingGiven
  | noCommand
  | unknownCommand
  | unknownArgument
  | invalidValue
  | unreadableValue
  | repeated
  | unwantedValue
  | missingArgument
  | asksHelp
  | asksVersion
  deriving DecidableEq, Repr

inductive Argument where
  | verbose
  | help
  | version
  | without (a : Attribute)
  | hashMode
  | rule
  | ignorePatterns
  | includePatterns
  | respectIgnoreFiles
  | threads
  | onError
  | output
  | name
  | format
  | directory
  | left
  | right
  | shell
  deriving DecidableEq, Repr

namespace Argument

/-- How an argument is given: without a value, or with one, once or any number of times. -/
inductive Arity where
  | flag
  | single
  | repeatable
  deriving DecidableEq, Repr

def arity : Argument → Arity
  | .verbose | .help | .version | .without _ | .respectIgnoreFiles => .flag
  | .rule | .ignorePatterns | .includePatterns => .repeatable
  | _ => .single

def takesValue (a : Argument) : Bool := a.arity ≠ .flag

/-- The name after two dashes; arguments that are given by their place have none. -/
def longName : Argument → Option String
  | .verbose => some "verbose"
  | .help => some "help"
  | .version => some "version"
  | .without .size => some "no-size"
  | .without .modified => some "no-mtime"
  | .without .md5 => some "no-md5"
  | .without .permissions => some "no-permissions"
  | .hashMode => some "hash-mode"
  | .rule => some "rule"
  | .ignorePatterns => some "ignore-patterns"
  | .includePatterns => some "include-patterns"
  | .respectIgnoreFiles => some "respect-gitignore"
  | .threads => some "threads"
  | .onError => some "on-error"
  | .output => some "output"
  | .name => some "name"
  | .format => some "format"
  | .directory | .left | .right | .shell => none

/-- The letter after one dash. -/
def shortName : Argument → Option Char
  | .verbose => some 'v'
  | .help => some 'h'
  | .version => some 'V'
  | .output => some 'o'
  | _ => none

def checkChoice (α : Type) [Choice α] (value : String) : Except UsageFault Unit :=
  if (Choice.ofName? value : Option α).isSome then .ok () else .error .invalidValue

/-- Whether a value is one that the argument takes. -/
def check (a : Argument) (value : String) : Except UsageFault Unit :=
  match a with
  | .hashMode => checkChoice HashMode value
  | .onError => checkChoice FailurePolicy value
  | .format => checkChoice ReportFormat value
  | .shell => checkChoice Shell value
  | .output | .directory | .left | .right =>
    if value.isEmpty then .error .invalidValue else .ok ()
  | .threads =>
    match Numeral.readNat Numeral.maxSize value.toList with
    | .ok _ => .ok ()
    | .error _ => .error .unreadableValue
  | _ => .ok ()

end Argument

end FileCensus
