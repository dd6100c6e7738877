/-!
# Failures of the file system

A failed read or write is either an error number of the system or a failure described by its kind
and a text of its own.
-/

namespace FileCensus

inductive IoKind where
  | notFound
  | permissionDenied
  | alreadyExists
  | invalidData
  | timedOut
  | interrupted
  | unexpectedEof
  | other
  deriving DecidableEq, Repr

/-- The text of a failure of which only the kind is known. -/
def IoKind.text : IoKind → String
  | .notFound => "entity not found"
  | .permissionDenied => "permission denied"
  | .alreadyExists => "entity already exists"
  | .invalidData => "invalid data"
  | .timedOut => "timed out"
  | .interrupted => "operation interrupted"
  | .unexpectedEof => "unexpected end of file"
  | .other => "other error"

/-- The error numbers that resolving and opening a path gives. -/
inductive Errno where
  | noEntry
  | denied
  | notDirectory
  | isDirectory
  | nameTooLong
  | linkLoop
  deriving DecidableEq, Repr

def Errno.number : Errno → Nat
  | .noEntry => 2
  | .denied => 13
  | .notDirectory => 20
  | .isDirectory => 21
  | .nameTooLong => 36
  | .linkLoop => 40

def Errno.text : Errno → String
  | .noEntry => "No such file or directory"
  | .denied => "Permission denied"
  | .notDirectory => "Not a directory"
  | .isDirectory => "Is a directory"
  | .nameTooLong => "File name too long"
  | .linkLoop => "Too many levels of symbolic links"

inductive IoFault where
  | system (code : Errno)
  | described (kind : IoKind) (text : String)
  deriving DecidableEq, Repr

namespace IoFault

def ofKind (kind : IoKind) : IoFault := .described kind kind.text

/-- A path with a zero byte reaches no file. -/
def zeroByte : IoFault := .described .invalidData "file name contained an unexpected NUL byte"

def text : IoFault → String
  | .system code => s!"{code.text} (os error {code.number})"
  | .described _ text => text

def kind : IoFault → IoKind
  | .system .noEntry => .notFound
  | .system .denied => .permissionDenied
  | .system _ => .other
  | .described kind _ => kind

end IoFault

/-! ### Outcomes -/

theorem exists_of_map_ok {ε α β : Type} {f : α → β} {x : Except ε α} {b : β}
    (h : x.map f = .ok b) : ∃ a, x = .ok a ∧ f a = b := by
  cases x with
  | error fault => cases h
  | ok a => exact ⟨a, rfl, Except.ok.inj h⟩

theorem error_of_map_error {ε α β : Type} {f : α → β} {x : Except ε α} {e : ε}
    (h : x.map f = .error e) : x = .error e := by
  cases x with
  | error cause => exact congrArg Except.error (Except.error.inj h)
  | ok a => cases h

theorem toOption_eq_some {ε α : Type} {x : Except ε α} {a : α} : x.toOption = some a ↔ x = .ok a := by
  cases x <;> simp [Except.toOption]

theorem mapError_eq_ok {ε ε' α : Type} {f : ε → ε'} {x : Except ε α} {a : α} :
    x.mapError f = .ok a ↔ x = .ok a := by
  constructor
  · intro h
    cases x with
    | error fault => cases h
    | ok b => rw [Except.ok.inj h]
  · rintro rfl
    rfl

end FileCensus
