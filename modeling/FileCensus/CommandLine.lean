import FileCensus.CommandLine.Grammar

/-!
# Command lines

A command line names one of the commands, with options of its own: to take a snapshot of a
directory, to compare two sides, or to write completions for a shell. Before the command only the
options of the program as a whole may stand.
-/

namespace FileCensus

/-- What the commands that look at files can be asked: what is checked and how files are selected.
Rules are not read yet. -/
structure CheckOptions where
  checks : Checks
  rules : List String
  ignorePatterns : List String
  includePatterns : List String
  respectsIgnoreFiles : Bool
  threads : Nat
  onFailure : FailurePolicy
  deriving DecidableEq, Repr

inductive Command where
  | take (directory output : String) (name : Option String) (options : CheckOptions)
  | compare (left right : String) (format : ReportFormat) (options : CheckOptions)
  | completions (shell : Shell)
  deriving DecidableEq, Repr

structure CommandLine where
  command : Command
  verbose : Bool
  deriving DecidableEq, Repr

/-- The settings of a scan with these options. -/
def CheckOptions.settings (o : CheckOptions) (target : Bytes) : Except Fault ScanSettings :=
  match RuleSet.parse o.rules with
  | .error fault => .error (.rule fault)
  | .ok rules =>
    .ok ⟨target, none, ⟨o.checks, rules⟩, o.ignorePatterns, o.includePatterns,
      o.respectsIgnoreFiles, o.threads, o.onFailure⟩

namespace Reading

def choice {α : Type} [Choice α] (r : Reading) (a : Argument) (otherwise : α) : α :=
  ((r.value? a).bind Choice.ofName?).getD otherwise

/-- The patterns of all values, each a list separated by commas. -/
def patterns (r : Reading) (a : Argument) : List String :=
  (r.values a).flatMap fun value => (cutAt ',' value.toList).map String.ofList

def defaultThreads : Nat := 4

def threads (r : Reading) : Nat :=
  match r.value? .threads with
  | none => defaultThreads
  | some value => ((Numeral.readNat Numeral.maxSize value.toList).toOption).getD defaultThreads

def checks (r : Reading) : Checks :=
  ⟨.ofFn fun a => !r.has (.without a), r.choice .hashMode .binary⟩

def checkOptions (r : Reading) : CheckOptions :=
  ⟨r.checks, r.values .rule, r.patterns .ignorePatterns, r.patterns .includePatterns,
    r.has .respectIgnoreFiles, r.threads, r.choice .onError .abort⟩

end Reading

namespace CommandLine

def checkArguments : List Argument :=
  Attribute.all.map .without ++ [.hashMode, .rule, .ignorePatterns, .includePatterns,
    .respectIgnoreFiles, .threads, .onError]

def takeGrammar : Grammar := ⟨[.output, .name, .verbose, .help] ++ checkArguments, [.directory]⟩

def compareGrammar : Grammar := ⟨[.format, .verbose, .help] ++ checkArguments, [.left, .right]⟩

def completionsGrammar : Grammar := ⟨[.verbose, .help], [.shell]⟩

def topGrammar : Grammar := ⟨[.verbose, .help, .version], []⟩

def defaultDirectory : String := "."

def defaultOutput : String := ".dirsnap.xml"

inductive CommandName where
  | take
  | compare
  | completions
  deriving DecidableEq, Repr

instance : Choice CommandName where
  all := [.take, .compare, .completions]
  name
    | .take => "take"
    | .compare => "compare"
    | .completions => "completions"

/-- The command of this name with the words after it, and whether they ask for more messages. -/
def readCommand (name : CommandName) (words : List String) : Except UsageFault CommandLine :=
  match name with
  | .take =>
    (takeGrammar.read [] words).map fun r =>
      ⟨.take ((r.value? .directory).getD defaultDirectory) ((r.value? .output).getD defaultOutput)
        (r.value? .name) r.checkOptions, r.has .verbose⟩
  | .compare =>
    (compareGrammar.read [.left, .right] words).map fun r =>
      ⟨.compare ((r.value? .left).getD "") ((r.value? .right).getD "") (r.choice .format .table)
        r.checkOptions, r.has .verbose⟩
  | .completions =>
    (completionsGrammar.read [.shell] words).map fun r =>
      ⟨.completions (r.choice .shell .bash), r.has .verbose⟩

def helpWord : String := "help"

/-- The request for help about a command, about help itself, or in general. -/
def readHelp : List String → UsageFault
  | [] => .asksHelp
  | [word] =>
    if word = helpWord || (Choice.ofName? word : Option CommandName).isSome then .asksHelp
    else .unknownCommand
  | _ => .unknownCommand

/-- A command line that ends before a command. -/
def endOfWords (r : Reading) : UsageFault := if r.has .verbose then .noCommand else .nothingGiven

/-- A word in the place of the command. -/
def notCommand (afterDashes : Bool) (word : String) : UsageFault :=
  if afterDashes && (word = helpWord || (Choice.ofName? word : Option CommandName).isSome) then
    .unknownArgument
  else .unknownCommand

def readFrom (r : Reading) : List String → Except UsageFault CommandLine
  | [] => .error (endOfWords r)
  | word :: rest =>
    if word = helpWord then .error (readHelp rest)
    else
      match Choice.ofName? word with
      | some name =>
        (readCommand name rest).map fun line =>
          { line with verbose := line.verbose || r.has .verbose }
      | none =>
        if word = "--" then
          match rest with
          | [] => .error (endOfWords r)
          | next :: _ => .error (notCommand true next)
        else if Reading.form word = .plain then .error (notCommand false word)
        else
          match Reading.word topGrammar r word with
          | .error fault => .error fault
          | .ok r => readFrom r rest

/-- The command line that the words after the program's name stand for. -/
def read (words : List String) : Except UsageFault CommandLine := readFrom ⟨[], none, []⟩ words

end CommandLine

end FileCensus
