import FileCensus.Markup.Fault

/-!
# References

The five characters that markup uses for itself are written in a value as named references, and
references are resolved when a value is read. Reading what was written gives the value back.
-/

namespace FileCensus.Markup

def escapeChar (c : Char) : List Char :=
  match c with
  | '<' => "&lt;".toList
  | '>' => "&gt;".toList
  | '&' => "&amp;".toList
  | '\'' => "&apos;".toList
  | '"' => "&quot;".toList
  | c => [c]

def escape (s : List Char) : List Char := s.flatMap escapeChar

/-- The character of a named reference. -/
def named? (name : List Char) : Option Char :=
  if name = "lt".toList then some '<'
  else if name = "gt".toList then some '>'
  else if name = "amp".toList then some '&'
  else if name = "apos".toList then some '\''
  else if name = "quot".toList then some '"'
  else none

/-- The code of a numbered reference, in decimal or after an x in hexadecimal. -/
def readCode (digits : List Char) : Except ReferenceFault Nat :=
  match digits with
  | 'x' :: digits => read 16 digits
  | digits => read 10 digits
where
  read (radix : Nat) (digits : List Char) : Except ReferenceFault Nat :=
    match digits with
    | '+' :: _ => .error .signed
    | '-' :: _ => .error .signed
    | digits => (Numeral.readDigits radix Numeral.maxCodePoint digits).mapError .number

def charOf (code : Nat) : Except ReferenceFault Char :=
  if code = 0 then .error .zero
  else if code.isValidChar then .ok (Char.ofNat code)
  else .error (.noCharacter code)

/-- The character of a reference whose name begins at byte `first` of the value. -/
def resolve (first : Nat) (name : List Char) : Except ReferenceFault Char :=
  match name with
  | '#' :: digits => readCode digits >>= charOf
  | name =>
    match named? name with
    | some c => .ok c
    | none =>
      let text := String.ofList name
      .error (.unknown first (first + text.utf8ByteSize) text)

/-- The bytes that a text takes. -/
def byteCount : List Char → Nat
  | [] => 0
  | c :: rest => c.utf8Size + byteCount rest

/-- The name up to the nearest semicolon, and the text after it; none if an ampersand or the end
comes first. -/
def cutName : List Char → Option (List Char × List Char)
  | [] => none
  | c :: rest =>
    if c = ';' then some ([], rest)
    else if c = '&' then none
    else (cutName rest).map fun (name, rest) => (c :: name, rest)

theorem length_cutName {s name rest : List Char} (h : cutName s = some (name, rest)) :
    rest.length < s.length := by
  induction s generalizing name with
  | nil => simp [cutName] at h
  | cons c s ih =>
    simp only [cutName] at h
    split at h
    · simp_all
    · split at h
      · simp at h
      · obtain ⟨⟨n, r⟩, hc, he⟩ := Option.map_eq_some_iff.1 h
        simp only [Prod.mk.injEq] at he
        have := ih (he.2 ▸ hc)
        simp only [List.length_cons]
        omega

/-- The value with its references resolved; `offset` bytes of it come before. -/
def unescapeFrom (offset : Nat) : List Char → Except ReferenceFault (List Char)
  | [] => .ok []
  | c :: rest =>
    if c = '&' then
      match h : cutName rest with
      | none => .error (.unterminated offset (offset + 1 + byteCount rest))
      | some (name, more) => do
        let resolved ← resolve (offset + 1) name
        let value ← unescapeFrom (offset + 2 + byteCount name) more
        return resolved :: value
    else do
      let value ← unescapeFrom (offset + c.utf8Size) rest
      return c :: value
  termination_by s => s.length
  decreasing_by
    · have := length_cutName h
      simp only [List.length_cons]
      omega
    · simp

/-- The text of a value given as bytes. -/
def unescape (value : Bytes) : Except Fault String :=
  match Utf8.decode value with
  | .error fault => .error (.encoding fault)
  | .ok text =>
    match unescapeFrom 0 text.toList with
    | .error fault => .error (.reference fault)
    | .ok chars => .ok (String.ofList chars)

end FileCensus.Markup
