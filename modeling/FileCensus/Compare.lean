import FileCensus.Policy.Checks
import FileCensus.Report
import FileCensus.Snapshot

/-!
# Comparing snapshots

Two records of a path are compared attribute by attribute through the texts of their values. Under a
policy the attributes that it does not check at the path are first dropped on both sides. Snapshots
are compared path by path.
-/

namespace FileCensus

/-- The text that stands for a value that was not captured. -/
def absentText : String := "null"

namespace Record

def difference? (l r : Record) (a : Attribute) : Option Difference :=
  if l.value a = r.value a then none
  else some ⟨a, (l.value a).getD absentText, (r.value a).getD absentText⟩

/-- The trace of two records of one path, if they differ. -/
def compare (leftLabel : String) (l : Record) (rightLabel : String) (r : Record) : Option Trace :=
  let differences := Attribute.all.filterMap (l.difference? r)
  if differences.isEmpty then none else some ⟨l.path.text, leftLabel, rightLabel, differences⟩

/-- The record without the attributes that are not kept. -/
def mask (keep : Attribute → Bool) (r : Record) : Record :=
  Attribute.all.foldl (fun r a => if keep a then r else r.without a) r

end Record

namespace Policy

def compare (policy : Policy) (leftLabel : String) (l : Record) (rightLabel : String) (r : Record) :
    Option Trace :=
  let keep := policy.checksAt l.path.text
  (l.mask keep).compare leftLabel rightLabel (r.mask keep)

def compareSnapshots (policy : Policy) (l r : Snapshot) : Report where
  leftLabel := l.name
  rightLabel := r.name
  traces := l.files.filterMap fun x =>
    (r.get? x.path.text).bind fun y => policy.compare l.name x r.name y
  onlyInLeft := l.paths.filter fun path => (r.get? path).isNone
  onlyInRight := r.paths.filter fun path => (l.get? path).isNone

end Policy

namespace Snapshot

/-- The comparison in which every attribute counts. -/
def compare (l r : Snapshot) : Report := Policy.everything.compareSnapshots l r

end Snapshot

end FileCensus
