/-!
# Reading JSON

Readers take values of an expected shape off the front of a text. The first thing that is wrong
decides between three flaws: the text is no JSON, a value is not of the expected shape, or the text
ends too early.
-/

namespace FileCensus.Json

inductive Flaw where
  | malformed
  | mismatched
  | ended
  deriving DecidableEq, Repr

abbrev Reader (α : Type) := StateT (List Char) (Except Flaw) α

def isSpace (c : Char) : Bool := c = ' ' || c = '\n' || c = '\t' || c = '\r'

def skipSpace : List Char → List Char := List.dropWhile isSpace

def fail {α : Type} (flaw : Flaw) : Reader α := fun _ => .error flaw

def hexValue? (c : Char) : Option Nat :=
  if '0' ≤ c ∧ c ≤ '9' then some (c.toNat - '0'.toNat)
  else if 'a' ≤ c ∧ c ≤ 'f' then some (c.toNat - 'a'.toNat + 10)
  else if 'A' ≤ c ∧ c ≤ 'F' then some (c.toNat - 'A'.toNat + 10)
  else none

/-- Four hexadecimal digits; the text ends too early if it has less than four bytes. -/
def readCode (s : List Char) : Except Flaw (Nat × List Char) :=
  match s with
  | a :: b :: c :: d :: rest =>
    match hexValue? a, hexValue? b, hexValue? c, hexValue? d with
    | some a, some b, some c, some d => .ok (((a * 16 + b) * 16 + c) * 16 + d, rest)
    | _, _, _, _ => .error .malformed
  | s => .error (if (String.ofList s).utf8ByteSize < 4 then .ended else .malformed)

def isLeading (n : Nat) : Bool := 0xD800 ≤ n && n ≤ 0xDBFF

def isTrailing (n : Nat) : Bool := 0xDC00 ≤ n && n ≤ 0xDFFF

/-- The second half of a character that is escaped as a pair. -/
def readTrailing (leading : Nat) (s : List Char) : Except Flaw (Char × List Char) :=
  match s with
  | [] => .error .ended
  | b :: s =>
    if b ≠ '\\' then .error .malformed
    else
      match s with
      | [] => .error .ended
      | u :: s =>
        if u ≠ 'u' then .error .malformed
        else do
          let (trailing, s) ← readCode s
          if isTrailing trailing then
            .ok (Char.ofNat (0x10000 + (leading - 0xD800) * 0x400 + (trailing - 0xDC00)), s)
          else .error .malformed

/-- The escapes of one letter. -/
def letter? (c : Char) : Option Char :=
  if c = '"' ∨ c = '\\' ∨ c = '/' then some c
  else if c = 'b' then some '\x08'
  else if c = 'f' then some '\x0C'
  else if c = 'n' then some '\n'
  else if c = 'r' then some '\r'
  else if c = 't' then some '\t'
  else none

/-- The character that the text after a backslash stands for. -/
def readEscape (s : List Char) : Except Flaw (Char × List Char) :=
  match s with
  | [] => .error .ended
  | c :: s =>
    if c = 'u' then do
      let (code, s) ← readCode s
      if isTrailing code then .error .malformed
      else if isLeading code then readTrailing code s
      else .ok (Char.ofNat code, s)
    else
      match letter? c with
      | some c => .ok (c, s)
      | none => .error .malformed

/-- The same without regard to which character it is. -/
def skipEscape (s : List Char) : Except Flaw (Char × List Char) :=
  match s with
  | [] => .error .ended
  | c :: s =>
    if c = 'u' then (readCode s).map fun (_, s) => (c, s)
    else
      match letter? c with
      | some c => .ok (c, s)
      | none => .error .malformed

/-- The characters up to the closing quotation mark, and the text after it. -/
def charsWith (escape : List Char → Except Flaw (Char × List Char)) :
    Nat → List Char → Except Flaw (List Char × List Char)
  | 0, _ => .error .ended
  | _ + 1, [] => .error .ended
  | fuel + 1, c :: s =>
    if c = '"' then .ok ([], s)
    else if c = '\\' then do
      let (c, s) ← escape s
      let (rest, s) ← charsWith escape fuel s
      return (c :: rest, s)
    else if c.toNat < 0x20 then .error .malformed
    else do
      let (rest, s) ← charsWith escape fuel s
      return (c :: rest, s)

/-- The text of a string whose opening quotation mark has been taken. -/
def chars : Reader String := fun s =>
  (charsWith readEscape (s.length + 1) s).map fun (text, rest) => (String.ofList text, rest)

/-- Takes the rest of a word such as `null`. -/
def expectWord : List Char → Reader Unit
  | [], s => .ok ((), s)
  | _ :: _, [] => .error .ended
  | w :: word, c :: s => if c = w then expectWord word s else .error .malformed

/-- How the number was written: its digits, and the power of ten to multiply them by. -/
structure Number where
  digits : Nat
  exponent : Int

def isDigit (c : Char) : Bool := '0' ≤ c && c ≤ '9'

def value (digits : List Char) : Nat :=
  digits.foldl (fun sum c => sum * 10 + (c.toNat - '0'.toNat)) 0

/-- One or more digits; `early` is the flaw of a text that ends before them. -/
def readDigits (early : Flaw) : Reader (List Char) := fun s =>
  match s with
  | [] => .error early
  | c :: _ =>
    if isDigit c then .ok (s.takeWhile isDigit, s.dropWhile isDigit) else .error .malformed

def readFraction (early : Flaw) : Reader (List Char) := fun s =>
  match s with
  | '.' :: s => readDigits early s
  | s => .ok ([], s)

def readExponent (early : Flaw) : Reader Int := fun s =>
  match s with
  | c :: s =>
    if c = 'e' ∨ c = 'E' then do
      let negative := s.head? = some '-'
      let s := if negative ∨ s.head? = some '+' then s.tail else s
      let (digits, s) ← readDigits early s
      return (if negative then -(value digits : Int) else value digits, s)
    else .ok (0, c :: s)
  | [] => .ok (0, [])

/-- A number without its sign. -/
def readNumber (early : Flaw) : Reader Number := do
  let whole ← readDigits early
  if whole.head? = some '0' ∧ 1 < whole.length then fail .malformed
  let fraction ← readFraction early
  let exponent ← readExponent early
  return ⟨value (whole ++ fraction), exponent - fraction.length⟩

/-- The least number that double precision rounds to infinity. -/
def doubleRange : Nat := Nat.pow 2 1024 - Nat.pow 2 970

/-- Whether the number is within the range of double precision. -/
def Number.isFinite (n : Number) : Bool :=
  match n.exponent with
  | .ofNat e => n.digits = 0 || (e ≤ 308 && n.digits * Nat.pow 10 e < doubleRange)
  | .negSucc e => n.digits / Nat.pow 10 (min (e + 1) (n.digits.log2 + 1)) < doubleRange

/-- The flaw of a value of another shape than the expected one. -/
def otherShape {α : Type} : Reader α := fun s =>
  match s with
  | [] => .error .malformed
  | c :: rest =>
    let flawed (check : Except Flaw (Bool × List Char)) : Except Flaw (α × List Char) :=
      match check with
      | .ok (true, _) => .error .mismatched
      | .ok (false, _) => .error .malformed
      | .error flaw => .error flaw
    let word (w : String) := flawed ((expectWord w.toList rest).map fun (_, s) => (true, s))
    let number (s : List Char) := flawed ((readNumber .ended s).map fun (n, s) => (n.isFinite, s))
    if c = 'n' then word "ull"
    else if c = 't' then word "rue"
    else if c = 'f' then word "alse"
    else if c = '-' then number rest
    else if isDigit c then number s
    else if c = '"' then flawed ((chars rest).map fun (_, s) => (true, s))
    else if c = '[' ∨ c = '\x7b' then .error .mismatched
    else .error .malformed

/-- Dispatches on the first character after white space. -/
def peek {α : Type} (early : Flaw) (next : Char → Reader α) : Reader α := fun s =>
  match skipSpace s with
  | [] => .error early
  | c :: rest => next c (c :: rest)

/-- Goes on after the character that was looked at. -/
def advance {α : Type} (next : Reader α) : Reader α := fun s => next s.tail

def string? : Reader String :=
  peek .ended fun c => if c = '"' then advance chars else otherShape

def colon : Reader Unit :=
  peek .ended fun c => if c = ':' then advance (pure ()) else fail .malformed

/-- The end of an array of which all expected items were taken. -/
def endArray : Reader Unit :=
  peek .ended fun c => if c = ']' then advance (pure ()) else fail .malformed

def endObject : Reader Unit :=
  peek .ended fun c => if c = '\x7d' then advance (pure ()) else fail .malformed

/-- The next item of an array, if there is one; the closing bracket is left. -/
def item? {α : Type} (first : Bool) (read : Reader α) : Reader (Option α) :=
  peek .ended fun c =>
    if c = ']' then pure none
    else if first then some <$> read
    else if c = ',' then
      advance <| peek .ended fun c => if c = ']' then fail .malformed else some <$> read
    else fail .malformed

/-- An item that has to be there. -/
def item {α : Type} (first : Bool) (read : Reader α) : Reader α := do
  match ← item? first read with
  | some x => pure x
  | none => fail .mismatched

def items {α : Type} (read : Reader α) : Nat → Bool → Reader (List α)
  | 0, _ => fail .ended
  | fuel + 1, first => do
    match ← item? first read with
    | none => pure []
    | some x =>
      let rest ← items read fuel false
      pure (x :: rest)

/-- An array of items of one shape. -/
def list {α : Type} (read : Reader α) : Reader (List α) :=
  peek .ended fun c =>
    if c = '[' then do
      let xs ← advance fun s => items read (s.length + 1) true s
      endArray
      pure xs
    else otherShape

/-- The next key of an object, if there is one; the closing bracket is left. -/
def key? (first : Bool) : Reader (Option String) :=
  peek .ended fun c =>
    if c = '\x7d' then pure none
    else if first then if c = '"' then some <$> advance chars else fail .malformed
    else if c = ',' then
      advance <| peek .ended fun c => if c = '"' then some <$> advance chars else fail .malformed
    else fail .malformed

/-- The members of an object, each added to a state under its key. -/
def fields {σ : Type} (add : String → σ → Reader σ) : Nat → Bool → σ → Reader σ
  | 0, _, _ => fail .ended
  | fuel + 1, first, state => do
    match ← key? first with
    | none => pure state
    | some key =>
      let state ← add key state
      fields add fuel false state

/-- The value of a member that may be given once. -/
def once {α : Type} (current : Option α) (read : Reader α) : Reader (Option α) :=
  if current.isSome then fail .mismatched
  else do
    colon
    some <$> read

def require {α : Type} (value : Option α) : Reader α :=
  match value with
  | some x => pure x
  | none => fail .mismatched

/-- A value given by its members in order as an array, or by name as an object. -/
def structured {α σ : Type} (ordered : Reader α) (start : σ) (add : String → σ → Reader σ)
    (finish : σ → Reader α) : Reader α :=
  peek .ended fun c =>
    if c = '[' then do
      let x ← advance ordered
      endArray
      pure x
    else if c = '\x7b' then do
      let state ← advance fun s => fields add (s.length + 1) true start s
      let x ← finish state
      endObject
      pure x
    else otherShape

/-- Takes a value of any shape, within so many levels of brackets and members. -/
def skipValue : Nat → Reader Unit
  | 0 => fail .ended
  | fuel + 1 =>
    peek .ended fun c =>
      if c = 'n' then advance (expectWord "ull".toList)
      else if c = 't' then advance (expectWord "rue".toList)
      else if c = 'f' then advance (expectWord "alse".toList)
      else if c = '-' then advance (discard (readNumber .malformed))
      else if isDigit c then discard (readNumber .malformed)
      else if c = '"' then advance skipChars
      else if c = '[' then advance <| peek .ended fun c =>
        if c = ']' then advance (pure ()) else skipItems fuel
      else if c = '\x7b' then advance <| peek .ended fun c =>
        if c = '\x7d' then advance (pure ()) else skipMembers fuel
      else fail .malformed
where
  skipChars : Reader Unit := fun s =>
    (charsWith skipEscape (s.length + 1) s).map fun (_, rest) => ((), rest)
  skipItems : Nat → Reader Unit
    | 0 => fail .ended
    | fuel + 1 => do
      skipValue fuel
      peek .ended fun c =>
        if c = ',' then advance (skipItems fuel)
        else if c = ']' then advance (pure ())
        else fail .malformed
  skipMembers : Nat → Reader Unit
    | 0 => fail .ended
    | fuel + 1 => do
      peek .ended fun c => if c = '"' then advance skipChars else fail .malformed
      colon
      skipValue fuel
      peek .ended fun c =>
        if c = ',' then advance (skipMembers fuel)
        else if c = '\x7d' then advance (pure ())
        else fail .malformed

/-- Takes the member of an unknown key. -/
def skipMember : Reader Unit := do
  colon
  fun s => skipValue (2 * s.length + 2) s

/-- The value that a whole text stands for. -/
def readAll {α : Type} (read : Reader α) (text : String) : Except Flaw α := do
  let (x, rest) ← read text.toList
  if (skipSpace rest).isEmpty then .ok x else .error .malformed

end FileCensus.Json
