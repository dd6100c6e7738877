/-!
# Printing JSON

Objects and arrays take a line for each member, two blanks deeper than their own brackets; an empty
array has no line of its own. Strings escape the quotation mark, the backslash and control
characters, and nothing else.
-/

namespace FileCensus.Json

def hexDigit (n : Nat) : Char := Nat.digitChar n

def escapeChar (c : Char) : List Char :=
  if c = '"' then ['\\', '"']
  else if c = '\\' then ['\\', '\\']
  else if c = '\x08' then ['\\', 'b']
  else if c = '\x0C' then ['\\', 'f']
  else if c = '\n' then ['\\', 'n']
  else if c = '\r' then ['\\', 'r']
  else if c = '\t' then ['\\', 't']
  else if c.toNat < 0x20 then
    ['\\', 'u', '0', '0', hexDigit (c.toNat / 16), hexDigit (c.toNat % 16)]
  else [c]

def string (s : String) : List Char := '"' :: s.toList.flatMap escapeChar ++ ['"']

def newline (depth : Nat) : List Char := '\n' :: List.replicate (2 * depth) ' '

/-- Members on lines of their own, separated by commas. -/
def members (depth : Nat) : List (List Char) → List Char
  | [] => []
  | [x] => newline (depth + 1) ++ x ++ newline depth
  | x :: rest => newline (depth + 1) ++ x ++ ',' :: members depth rest

def array (depth : Nat) (items : List (List Char)) : List Char :=
  '[' :: members depth items ++ [']']

def field (name : String) (value : List Char) : List Char := string name ++ ':' :: ' ' :: value

def object (depth : Nat) (fields : List (List Char)) : List Char :=
  '\x7b' :: members depth fields ++ ['\x7d']

end FileCensus.Json
