import FileCensus.CommandLine.Argument

/-!
# Reading words

The words after a command are options and their values, and the arguments that are given by their
place. The value of an option that stands in the next word, or of an argument given by its place, is
looked at when the next argument begins, so that an argument that does not exist is reported before
it.
-/

namespace FileCensus

/-- The options of a command, and the arguments that it takes by place. -/
structure Grammar where
  options : List Argument
  places : List Argument

namespace Grammar

def long? (g : Grammar) (name : String) : Option Argument :=
  g.options.find? fun a => a.longName = some name

def short? (g : Grammar) (letter : Char) : Option Argument :=
  g.options.find? fun a => a.shortName = some letter

end Grammar

/-- The arguments taken so far, the one that waits for its value or whose value waits, and the
places that are left. -/
structure Reading where
  given : List (Argument × String)
  pending : Option (Argument × Option String)
  places : List Argument

namespace Reading

def has (r : Reading) (a : Argument) : Bool := r.given.any (·.1 = a)

/-- The values given for an argument, in order. -/
def values (r : Reading) (a : Argument) : List String :=
  (r.given.filter (·.1 = a)).map (·.2)

def value? (r : Reading) (a : Argument) : Option String := (r.values a).head?

/-- Takes an argument with its value. -/
def take (r : Reading) (a : Argument) (value : Option String) : Except UsageFault Reading :=
  match a, value with
  | .help, _ => .error .asksHelp
  | .version, _ => .error .asksVersion
  | a, value =>
    if a.takesValue && value.isNone then .error .invalidValue
    else if a.arity ≠ .repeatable ∧ r.has a then .error .repeated
    else
      (a.check (value.getD "")).map fun _ => { r with given := r.given ++ [(a, value.getD "")] }

/-- Takes the argument that is pending. -/
def settle (r : Reading) : Except UsageFault Reading :=
  match r.pending with
  | none => .ok r
  | some (a, value) => { r with pending := none }.take a value

/-- Begins an option with the value that is attached to it, if any. -/
def option (r : Reading) (a : Argument) (attached : Option String) : Except UsageFault Reading :=
  match r.settle with
  | .error fault => .error fault
  | .ok r =>
    if a.takesValue && attached.isNone then .ok { r with pending := some (a, none) }
    else r.take a attached

def long (r : Reading) (g : Grammar) (text : List Char) : Except UsageFault Reading :=
  let name := String.ofList (text.takeWhile (· ≠ '='))
  let attached : Option String :=
    if text.contains '=' then some (String.ofList (text.dropWhile (· ≠ '=')).tail) else none
  match g.long? name with
  | none => .error .unknownArgument
  | some a =>
    if !a.takesValue && attached.isSome then .error .unwantedValue else r.option a attached

/-- Letters after one dash: options without values, and at most one whose value is the rest. -/
def shorts (g : Grammar) (r : Reading) : List Char → Except UsageFault Reading
  | [] => .ok r
  | letter :: rest =>
    match g.short? letter with
    | none => .error .unknownArgument
    | some a =>
      if a.takesValue then
        let attached : Option String :=
          match rest with
          | [] => none
          | '=' :: value => some (String.ofList value)
          | value => some (String.ofList value)
        r.option a attached
      else
        match r.option a none with
        | .error fault => .error fault
        | .ok r => shorts g r rest

/-- Takes a word by its place. -/
def place (r : Reading) (word : String) : Except UsageFault Reading :=
  match r.places with
  | [] => .error .unknownArgument
  | a :: rest =>
    r.settle.map fun r => { r with pending := some (a, some word), places := rest }

/-- Takes a word that is no option: the value that is waited for, or an argument by its place. -/
def plain (r : Reading) (word : String) : Except UsageFault Reading :=
  match r.pending with
  | some (a, none) => .ok { r with pending := some (a, some word) }
  | _ => r.place word

/-- The ways in which a word can be written. -/
inductive Form where
  | long (text : List Char)
  | shorts (letters : List Char)
  | plain
  deriving DecidableEq, Repr

def form (word : String) : Form :=
  match word.toList with
  | '-' :: '-' :: text => .long text
  | '-' :: letter :: rest => .shorts (letter :: rest)
  | _ => .plain

def word (g : Grammar) (r : Reading) (word : String) : Except UsageFault Reading :=
  match form word with
  | .long text => r.long g text
  | .shorts letters => shorts g r letters
  | .plain => r.plain word

def placed (r : Reading) : List String → Except UsageFault Reading
  | [] => .ok r
  | w :: rest =>
    match r.place w with
    | .error fault => .error fault
    | .ok r => placed r rest

/-- Takes all words; after two dashes alone every word counts by its place. -/
def words (g : Grammar) (r : Reading) : List String → Except UsageFault Reading
  | [] => .ok r
  | w :: rest =>
    if w = "--" then placed r rest
    else
      match word g r w with
      | .error fault => .error fault
      | .ok r => words g r rest

end Reading

/-- The arguments that the words after a command give, if every place is taken that has to be. -/
def Grammar.read (g : Grammar) (required : List Argument) (words : List String) :
    Except UsageFault Reading :=
  match (Reading.words g ⟨[], none, g.places⟩ words).bind Reading.settle with
  | .error fault => .error fault
  | .ok r => if required.all r.has then .ok r else .error .missingArgument

end FileCensus
