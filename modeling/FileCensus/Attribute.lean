/-!
# File attributes

The four attributes that a census can record of a file, in the order in which they are captured,
written and reported, and values held one for each of them.
-/

namespace FileCensus

inductive Attribute where
  | size
  | modified
  | md5
  | permissions
  deriving DecidableEq, Repr

namespace Attribute

def all : List Attribute := [.size, .modified, .md5, .permissions]

@[simp] theorem mem_all (a : Attribute) : a ∈ all := by cases a <;> decide

def name : Attribute → String
  | .size => "size"
  | .modified => "modified"
  | .md5 => "md5"
  | .permissions => "permissions"

/-- The other name under which a rule may mention the attribute. -/
def shortName : Attribute → Option String
  | .size => none
  | .modified => some "mtime"
  | .md5 => some "hash"
  | .permissions => some "perms"

def label : Attribute → String
  | .size => "Size"
  | .modified => "Modification time"
  | .md5 => "MD5 checksum"
  | .permissions => "Permissions"

/-- The attribute of exactly this name. -/
def ofName? (text : String) : Option Attribute := all.find? (·.name = text)

theorem ofName?_name (a : Attribute) : ofName? a.name = some a := by cases a <;> decide

/-- The attribute of this name or short name, in capitals or not. -/
def mentioned? (text : List Char) : Option Attribute :=
  all.find? fun a =>
    let text := text.map Char.toLower
    text = a.name.toList || some text = a.shortName.map String.toList

end Attribute

/-- One value for each attribute. -/
@[ext] structure ByAttribute (α : Type) where
  size : α
  modified : α
  md5 : α
  permissions : α
  deriving DecidableEq, Repr

namespace ByAttribute

variable {α : Type}

def const (x : α) : ByAttribute α := ⟨x, x, x, x⟩

def ofFn (f : Attribute → α) : ByAttribute α := ⟨f .size, f .modified, f .md5, f .permissions⟩

def get (v : ByAttribute α) : Attribute → α
  | .size => v.size
  | .modified => v.modified
  | .md5 => v.md5
  | .permissions => v.permissions

def set (v : ByAttribute α) (a : Attribute) (x : α) : ByAttribute α :=
  match a with
  | .size => { v with size := x }
  | .modified => { v with modified := x }
  | .md5 => { v with md5 := x }
  | .permissions => { v with permissions := x }

@[simp] theorem get_const (x : α) (a : Attribute) : (const x).get a = x := by cases a <;> rfl

@[simp] theorem get_ofFn (f : Attribute → α) (a : Attribute) : (ofFn f).get a = f a := by
  cases a <;> rfl

theorem get_set (v : ByAttribute α) (a b : Attribute) (x : α) :
    (v.set a x).get b = if b = a then x else v.get b := by cases a <;> cases b <;> rfl

@[simp] theorem get_set_same (v : ByAttribute α) (a : Attribute) (x : α) :
    (v.set a x).get a = x := by
  simp [get_set]

theorem ext_get {v w : ByAttribute α} (h : ∀ a, v.get a = w.get a) : v = w :=
  ByAttribute.ext (h .size) (h .modified) (h .md5) (h .permissions)

end ByAttribute

end FileCensus
