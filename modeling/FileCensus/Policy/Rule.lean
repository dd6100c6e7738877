import FileCensus.Attribute
import FileCensus.Text.Blank
import FileCensus.Text.Cut

/-!
# Rules

A rule says for some attributes that they are always checked or that they are skipped. Its text
lists them, separated by commas, each with a plus or a minus in front; a later mention replaces an
earlier one.
-/

namespace FileCensus

inductive Decision where
  | unspecified
  | check
  | skip
  deriving DecidableEq, Repr

abbrev Rule := ByAttribute Decision

inductive RuleFault where
  | unsigned (token : String)
  | unknownAttribute (name : String)
  | notPair (text : String)
  | emptyPattern (text : String)
  | stated (text : String)
  deriving DecidableEq, Repr

def RuleFault.message : RuleFault → String
  | .unsigned token => s!"'{token}' must start with '+' or '-'"
  | .unknownAttribute name => s!"unknown attribute '{name}'"
  | .notPair text => s!"'{text}' is not PATTERN=SPEC"
  | .emptyPattern text => s!"'{text}' has an empty pattern"
  | .stated text => text

namespace Rule

def empty : Rule := .const .unspecified

/-- An empty rule acts like no rule. -/
def isEmpty (rule : Rule) : Bool := Attribute.all.all fun a => rule.get a = .unspecified

/-- The first rule, where the second decides nothing. -/
def override (first second : Rule) : Rule :=
  .ofFn fun a => if second.get a = .unspecified then first.get a else second.get a

/-- The words of a rule's text, without the white space around them and without empty ones. -/
def tokens (text : List Char) : List (List Char) :=
  ((cutAt ',' text).map Text.trim).filter fun token => !token.isEmpty

def readToken (token : List Char) : Except RuleFault (Attribute × Decision) :=
  match token with
  | '+' :: name => decide .check name
  | '-' :: name => decide .skip name
  | _ => .error (.unsigned (String.ofList token))
where
  decide (decision : Decision) (name : List Char) : Except RuleFault (Attribute × Decision) :=
    match Attribute.mentioned? name with
    | some a => .ok (a, decision)
    | none => .error (.unknownAttribute (String.ofList name))

def applyTokens (rule : Rule) : List (List Char) → Except RuleFault Rule
  | [] => .ok rule
  | token :: rest =>
    match readToken token with
    | .ok (a, decision) => applyTokens (rule.set a decision) rest
    | .error fault => .error fault

def parse (text : String) : Except RuleFault Rule := applyTokens empty (tokens text.toList)

end Rule

end FileCensus
