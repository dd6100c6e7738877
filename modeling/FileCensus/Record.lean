import FileCensus.Attribute
import FileCensus.Path.Normal
import FileCensus.Time.Stamp

/-!
# File records

What a census knows of one file. An attribute without a value was not captured.
-/

namespace FileCensus

structure Record where
  path : NormalPath
  size : Option UInt64
  modified : Option Int64
  md5 : Option String
  permissions : Option String
  deriving DecidableEq

namespace Record

def unknown (path : NormalPath) : Record := ⟨path, none, none, none, none⟩

/-- The text of a captured value; a time is its plain number of milliseconds. -/
def value (r : Record) : Attribute → Option String
  | .size => r.size.map fun size => Numeral.ofNat size.toNat
  | .modified => r.modified.map fun millis => Numeral.ofInt millis.toInt
  | .md5 => r.md5
  | .permissions => r.permissions

def isKnown (r : Record) : Attribute → Bool
  | .size => r.size.isSome
  | .modified => r.modified.isSome
  | .md5 => r.md5.isSome
  | .permissions => r.permissions.isSome

def without (r : Record) : Attribute → Record
  | .size => { r with size := none }
  | .modified => { r with modified := none }
  | .md5 => { r with md5 := none }
  | .permissions => { r with permissions := none }

@[simp] theorem path_without (r : Record) (a : Attribute) : (r.without a).path = r.path := by
  cases a <;> rfl

theorem value_without (r : Record) (a b : Attribute) :
    (r.without a).value b = if b = a then none else r.value b := by
  cases a <;> cases b <;> rfl

theorem isSome_value (r : Record) (a : Attribute) : (r.value a).isSome = r.isKnown a := by
  cases a <;> simp [value, isKnown]

/-- The text of a value as it is written out: a time is a time stamp. -/
def shownValue (r : Record) : Attribute → Option String
  | .modified => r.modified.map fun millis => Stamp.format millis.toInt
  | a => r.value a

/-- One line that names the path and every captured value. -/
def summary (r : Record) : String :=
  "file: " ++ r.path.text ++ String.join (Attribute.all.map fun a =>
    match r.shownValue a with
    | none => ""
    | some value => ", " ++ a.name ++ ": " ++ value)

end Record

end FileCensus
