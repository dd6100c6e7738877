import FileCensus.Path.Posix

/-!
# Ignore patterns

A pattern is a sequence of tokens that a path has to match as a whole, byte by byte. Every token
takes some bytes off the front of a path, and what it can leave is the list of its rests. Only the
three tokens of a double star take slashes that are not written.
-/

namespace FileCensus.Ignore

inductive Token where
  | literal (bytes : Bytes)
  /-- One byte. -/
  | any
  /-- Any bytes of one component. -/
  | star
  /-- Nothing, or everything up to a slash. -/
  | leading
  /-- A slash, or everything between two slashes and these. -/
  | between
  /-- A slash and everything after it. -/
  | trailing
  /-- One byte in one of the ranges, or in none of them. -/
  | oneOf (negated : Bool) (ranges : List (UInt8 × UInt8))
  | alternatives (branches : List (List Token))

abbrev Pattern := List Token

def isSlash (b : UInt8) : Bool := b = Path.slash

/-- What is left after each slash. -/
def afterSlashes : Bytes → List Bytes
  | [] => []
  | b :: rest => if isSlash b then rest :: afterSlashes rest else afterSlashes rest

/-- What is left after any number of bytes of one component. -/
def withinComponent : Bytes → List Bytes
  | [] => [[]]
  | b :: rest => (b :: rest) :: if isSlash b then [] else withinComponent rest

/-- What is left after any number of bytes. -/
def anywhere : Bytes → List Bytes
  | [] => [[]]
  | b :: rest => (b :: rest) :: anywhere rest

def inRanges (ranges : List (UInt8 × UInt8)) (b : UInt8) : Bool :=
  ranges.any fun (low, high) => low ≤ b && b ≤ high

/-- The rest after one byte that is no slash and fulfils a condition. -/
def afterByte (holds : UInt8 → Bool) : Bytes → List Bytes
  | [] => []
  | b :: rest => if !isSlash b && holds b then [rest] else []

def afterSlash (rests : Bytes → List Bytes) : Bytes → List Bytes
  | [] => []
  | b :: rest => if isSlash b then rests rest else []

mutual

/-- Whether a token stands for nothing: braces without anything in them. -/
def Token.isVoid : Token → Bool
  | .alternatives branches => allVoid branches
  | _ => false

def isVoid : List Token → Bool
  | [] => true
  | t :: rest => t.isVoid && isVoid rest

def allVoid : List (List Token) → Bool
  | [] => true
  | branch :: rest => isVoid branch && allVoid rest

end

mutual

/-- What a token can leave of a path. Of alternatives the empty ones do not count, unless all are
empty. -/
def Token.rests : Token → Bytes → List Bytes
  | .literal bytes, s => if bytes.isPrefixOf s then [s.drop bytes.length] else []
  | .any, s => afterByte (fun _ => true) s
  | .star, s => withinComponent s
  | .leading, s => s :: afterSlashes s
  | .between, s => afterSlash (fun rest => rest :: afterSlashes rest) s
  | .trailing, s => afterSlash anywhere s
  | .oneOf negated ranges, s => afterByte (fun b => inRanges ranges b != negated) s
  | .alternatives branches, s => if allVoid branches then [s] else restsOfAny branches s

/-- What tokens in a row can leave of any of some paths. -/
def restsOfAll : List Token → List Bytes → List Bytes
  | [], paths => paths
  | t :: rest, paths => restsOfAll rest (paths.flatMap t.rests).eraseDups

def restsOfAny : List (List Token) → Bytes → List Bytes
  | [], _ => []
  | branch :: rest, s =>
    if isVoid branch then restsOfAny rest s else restsOfAll branch [s] ++ restsOfAny rest s

end

/-- A double star alone matches everything. -/
def Pattern.covers (pattern : Pattern) (path : Bytes) : Bool :=
  match pattern with
  | [.leading] => true
  | _ => (restsOfAll pattern [path]).any (·.isEmpty)

end FileCensus.Ignore
