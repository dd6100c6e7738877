import FileCensus.Policy.Glob
import FileCensus.Policy.Rule

/-!
# Rule sets

A rule set gives rules to patterns. The rule of a path is that of the first entry that decides
something and whose pattern matches the path or its last component.
-/

namespace FileCensus

structure PathRule where
  pattern : String
  rule : Rule
  deriving DecidableEq, Repr

abbrev RuleSet := List PathRule

/-- The texts before and after the last occurrence of a separator. -/
def cutAtLast {α : Type} [DecidableEq α] (sep : α) (s : List α) : Option (List α × List α) :=
  match s.reverse.dropWhile (· ≠ sep) with
  | [] => none
  | _ :: front => some (front.reverse, (s.reverse.takeWhile (· ≠ sep)).reverse)

/-- The text after the last slash. -/
def lastComponent (path : String) : String :=
  String.ofList ((path.toList.reverse.takeWhile (· ≠ '/')).reverse)

namespace PathRule

def covers (entry : PathRule) (path : String) : Bool :=
  Glob.isMatch entry.pattern path || Glob.isMatch entry.pattern (lastComponent path)

def parse (text : String) : Except RuleFault PathRule :=
  match cutAtLast '=' text.toList with
  | none => .error (.notPair text)
  | some (pattern, spec) =>
    if pattern.isEmpty then .error (.emptyPattern text)
    else (Rule.parse (String.ofList spec)).map fun rule => ⟨String.ofList pattern, rule⟩

end PathRule

namespace RuleSet

def ruleFor (rules : RuleSet) (path : String) : Option Rule :=
  (rules.find? fun entry => !entry.rule.isEmpty && entry.covers path).map PathRule.rule

/-- The entries of several texts; the first text that does not parse gives its fault. -/
def parse : List String → Except RuleFault RuleSet
  | [] => .ok []
  | text :: rest =>
    match PathRule.parse text with
    | .error fault => .error fault
    | .ok entry => (parse rest).map (entry :: ·)

end RuleSet

end FileCensus
