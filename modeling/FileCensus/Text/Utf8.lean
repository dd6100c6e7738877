/-!
# Text as bytes

Names and documents arrive as bytes. This module gives the bytes of a text, the text of bytes where
there is one, the first place at which bytes stop being text otherwise, and the reading of a damaged
name in which every part that is not text becomes one replacement character.
-/

namespace FileCensus

abbrev Bytes := List UInt8

namespace Utf8

def encode (s : String) : Bytes := s.toByteArray.data.toList

/-- Why bytes are not text: `length` bytes from `index` begin no character, or the bytes end within
one. -/
inductive Fault where
  | invalid (length index : Nat)
  | incomplete (index : Nat)
  deriving DecidableEq, Repr

def Fault.message : Fault → String
  | .invalid length index => s!"invalid utf-8 sequence of {length} bytes from index {index}"
  | .incomplete index => s!"incomplete utf-8 byte sequence from index {index}"

/-- The ranges of the bytes that must follow a leading byte. -/
def continuation (lead : UInt8) : Option (List (UInt8 × UInt8)) :=
  if lead < 0x80 then some []
  else if lead < 0xC2 then none
  else if lead < 0xE0 then some [(0x80, 0xBF)]
  else if lead = 0xE0 then some [(0xA0, 0xBF), (0x80, 0xBF)]
  else if lead = 0xED then some [(0x80, 0x9F), (0x80, 0xBF)]
  else if lead < 0xF0 then some [(0x80, 0xBF), (0x80, 0xBF)]
  else if lead = 0xF0 then some [(0x90, 0xBF), (0x80, 0xBF), (0x80, 0xBF)]
  else if lead < 0xF4 then some [(0x80, 0xBF), (0x80, 0xBF), (0x80, 0xBF)]
  else if lead = 0xF4 then some [(0x80, 0x8F), (0x80, 0xBF), (0x80, 0xBF)]
  else none

/-- What the bytes after a leading byte make of it: a character with its value, a break after some
of the expected bytes, or the end of the bytes. -/
inductive Tail where
  | whole (value : Nat) (rest : Bytes)
  | broken (length : Nat) (rest : Bytes)
  | ended

def tail (length value : Nat) : List (UInt8 × UInt8) → Bytes → Tail
  | [], rest => .whole value rest
  | _ :: _, [] => .ended
  | (low, high) :: ranges, b :: rest =>
    if low ≤ b ∧ b ≤ high then tail (length + 1) (value * 64 + (b.toNat - 0x80)) ranges rest
    else .broken length (b :: rest)

/-- The bits of a leading byte that belong to its character. -/
def leadValue (lead : UInt8) (following : Nat) : Nat :=
  if following = 0 then lead.toNat else lead.toNat % (1 <<< (6 - following))

def first (lead : UInt8) (rest : Bytes) : Tail :=
  match continuation lead with
  | none => .broken 1 rest
  | some ranges => tail 1 (leadValue lead ranges.length) ranges rest

/-- What is left after `first` is no longer than what it was given. -/
def Tail.Within (n : Nat) : Tail → Prop
  | .whole _ rest => rest.length ≤ n
  | .broken _ rest => rest.length ≤ n
  | .ended => True

theorem Tail.Within.succ {n : Nat} : {t : Tail} → t.Within n → t.Within (n + 1)
  | .whole .., h => Nat.le_succ_of_le h
  | .broken .., h => Nat.le_succ_of_le h
  | .ended, h => h

theorem within_tail (length value : Nat) (ranges : List (UInt8 × UInt8)) (bs : Bytes) :
    (tail length value ranges bs).Within bs.length := by
  fun_induction tail length value ranges bs with
  | case1 => exact Nat.le_refl _
  | case2 => trivial
  | case3 length value low high ranges b rest h ih =>
    exact ih.succ
  | case4 => exact Nat.le_refl _

theorem within_first (lead : UInt8) (bs : Bytes) : (first lead bs).Within bs.length := by
  unfold first
  split
  · exact Nat.le_refl _
  · exact within_tail ..

def firstFault (index : Nat) : Bytes → Option Fault
  | [] => none
  | lead :: rest =>
    match _hf : first lead rest with
    | .whole _ more => firstFault (index + (rest.length + 1 - more.length)) more
    | .broken length _ => some (.invalid length index)
    | .ended => some (.incomplete index)
  termination_by bs => bs.length
  decreasing_by
    have := within_first lead rest
    simp only [_hf, Tail.Within] at this
    simp only [List.length_cons]
    omega

/-- The text of the bytes, or the first place at which they stop being text. -/
def decode (bs : Bytes) : Except Fault String :=
  match String.fromUTF8? ⟨bs.toArray⟩ with
  | some s => .ok s
  | none => .error ((firstFault 0 bs).getD (.incomplete 0))

/-- Each longest part that begins no character, or that the end cuts off, becomes one U+FFFD. -/
def replaceFaults : Bytes → List Char
  | [] => []
  | lead :: rest =>
    match _hf : first lead rest with
    | .whole value more => Char.ofNat value :: replaceFaults more
    | .broken _ more => '\uFFFD' :: replaceFaults more
    | .ended => ['\uFFFD']
  termination_by bs => bs.length
  decreasing_by
    all_goals
      have := within_first lead rest
      simp only [_hf, Tail.Within] at this
      simp only [List.length_cons]
      omega

def decodeLossy (bs : Bytes) : String :=
  match decode bs with
  | .ok s => s
  | .error _ => String.ofList (replaceFaults bs)

@[simp] theorem decode_encode (s : String) : decode (encode s) = .ok s := by
  simp [decode, encode, String.fromUTF8?, s.isValidUTF8, String.fromUTF8]

@[simp] theorem decodeLossy_encode (s : String) : decodeLossy (encode s) = s := by
  simp [decodeLossy]

end Utf8

end FileCensus
