/-!
# Numerals

Whole numbers as text. Writing uses the fewest decimal digits. Reading takes digits of a radix, an
optional sign in front, and refuses what exceeds a limit; the leftmost fault wins. What is written
within the limit reads back.
-/

namespace FileCensus.Numeral

inductive Fault where
  | empty
  | badDigit
  | tooLarge
  deriving DecidableEq, Repr

def Fault.message : Fault → String
  | .empty => "cannot parse integer from empty string"
  | .badDigit => "invalid digit found in string"
  | .tooLarge => "number too large to fit in target type"

def maxSize : Nat := 0xFFFFFFFFFFFFFFFF

def maxTime : Nat := 0x7FFFFFFFFFFFFFFF

def maxCodePoint : Nat := 0xFFFFFFFF

def digits (n : Nat) : List Char := Nat.toDigits 10 n

def ofNat (n : Nat) : String := String.ofList (digits n)

def ofInt : Int → String
  | .ofNat n => ofNat n
  | .negSucc n => String.ofList ('-' :: digits (n + 1))

/-- At least `width` digits. -/
def padded (width n : Nat) : List Char :=
  List.replicate (width - (digits n).length) '0' ++ digits n

def octal (n : Nat) : String := String.ofList (Nat.toDigits 8 n)

/-- The value of a digit or letter, if it is below the radix. -/
def digitValue (radix : Nat) (c : Char) : Option Nat :=
  let value :=
    if '0' ≤ c ∧ c ≤ '9' then some (c.toNat - '0'.toNat)
    else if 'a' ≤ c ∧ c ≤ 'z' then some (c.toNat - 'a'.toNat + 10)
    else if 'A' ≤ c ∧ c ≤ 'Z' then some (c.toNat - 'A'.toNat + 10)
    else none
  value.filter (· < radix)

def accumulate (radix limit : Nat) (sum : Nat) : List Char → Except Fault Nat
  | [] => .ok sum
  | c :: rest =>
    match digitValue radix c with
    | none => .error .badDigit
    | some d =>
      if sum * radix + d ≤ limit then accumulate radix limit (sum * radix + d) rest
      else .error .tooLarge

/-- One or more digits, up to a limit. -/
def readDigits (radix limit : Nat) : List Char → Except Fault Nat
  | [] => .error .empty
  | c :: rest => accumulate radix limit 0 (c :: rest)

def readNat (limit : Nat) : List Char → Except Fault Nat
  | '+' :: c :: rest => readDigits 10 limit (c :: rest)
  | s => readDigits 10 limit s

/-- A signed number from `-limit - 1` to `limit`. -/
def readInt (limit : Nat) : List Char → Except Fault Int
  | '-' :: c :: rest => (readDigits 10 (limit + 1) (c :: rest)).map fun n => -(n : Int)
  | s => (readNat limit s).map Int.ofNat

end FileCensus.Numeral
