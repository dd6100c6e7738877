import FileCensus.Digest.Content
import FileCensus.Policy.RuleSet

/-!
# What is checked

The checks of a run switch each attribute on or off for every file, and rules override them path by
path: a rule that demands a check wins over everything, and a skip counts only where the attribute
is on.
-/

namespace FileCensus

structure Checks where
  enabled : ByAttribute Bool
  hashMode : HashMode
  deriving DecidableEq, Repr

def Checks.all : Checks := ⟨.const true, .binary⟩

def Checks.set (checks : Checks) (a : Attribute) (on : Bool) : Checks :=
  { checks with enabled := checks.enabled.set a on }

def shouldCheck (checks : Checks) (rule : Option Rule) (a : Attribute) : Bool :=
  match (rule.map (·.get a)).getD .unspecified with
  | .check => true
  | .unspecified => checks.enabled.get a
  | .skip => false

/-- The checks of a run together with its rules. -/
structure Policy where
  checks : Checks
  rules : RuleSet
  deriving DecidableEq, Repr

namespace Policy

def everything : Policy := ⟨.all, []⟩

def checksAt (policy : Policy) (path : String) (a : Attribute) : Bool :=
  shouldCheck policy.checks (policy.rules.ruleFor path) a

@[simp] theorem checksAt_everything (path : String) (a : Attribute) :
    everything.checksAt path a = true := by
  simp [everything, checksAt, RuleSet.ruleFor, shouldCheck, Checks.all]

end Policy

end FileCensus
