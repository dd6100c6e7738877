import FileCensus.Digest.Md5
import FileCensus.Fault.Io

/-!
# Digests of delivered content

Content arrives as a sequence of deliveries. A binary digest takes the bytes as they are. A text
digest takes them with every line ending made a line feed: a carriage return waits for the byte
after it, across deliveries too, since the two together are one ending. An interruption is passed
over, and the first other failure ends the digest.
-/

namespace FileCensus

inductive HashMode where
  | binary
  | text
  deriving DecidableEq, Repr

def HashMode.name : HashMode → String
  | .binary => "binary"
  | .text => "text"

namespace Content

def lineFeed : UInt8 := 0x0A

def carriageReturn : UInt8 := 0x0D

/-- Each carriage return with a line feed after it, and each one alone, becomes one line feed. -/
def normalizeLineEndings : Bytes → Bytes
  | [] => []
  | [b] => [if b = carriageReturn then lineFeed else b]
  | b :: c :: rest =>
    if b ≠ carriageReturn then b :: normalizeLineEndings (c :: rest)
    else if c = lineFeed then lineFeed :: normalizeLineEndings rest
    else lineFeed :: normalizeLineEndings (c :: rest)

inductive Delivery where
  | bytes (chunk : Bytes)
  | failure (cause : IoFault)
  deriving DecidableEq, Repr

/-- The digest so far, and whether a carriage return waits. -/
structure Progress where
  digest : Md5.State
  waiting : Bool
  deriving DecidableEq, Repr

namespace Progress

def start : Progress := ⟨Md5.start, false⟩

/-- A byte that no carriage return precedes. -/
def plain (p : Progress) (b : UInt8) : Progress :=
  if b = carriageReturn then { p with waiting := true } else ⟨p.digest.absorb b, false⟩

def textByte (p : Progress) (b : UInt8) : Progress :=
  if p.waiting then
    let ended : Progress := ⟨p.digest.absorb lineFeed, false⟩
    if b = lineFeed then ended else ended.plain b
  else p.plain b

def chunk (mode : HashMode) (p : Progress) (bytes : Bytes) : Progress :=
  match mode with
  | .binary => { p with digest := p.digest.absorbAll bytes }
  | .text => bytes.foldl textByte p

def finish (p : Progress) : String :=
  (if p.waiting then p.digest.absorb lineFeed else p.digest).finish

end Progress

def digestFrom (mode : HashMode) (p : Progress) : List Delivery → Except IoFault String
  | [] => .ok p.finish
  | .bytes b :: rest => digestFrom mode (p.chunk mode b) rest
  | .failure cause :: rest =>
    if cause.kind = .interrupted then digestFrom mode p rest else .error cause

def digest (mode : HashMode) (deliveries : List Delivery) : Except IoFault String :=
  digestFrom mode .start deliveries

/-- The digest of content that is delivered whole. -/
def digestBytes (mode : HashMode) (bytes : Bytes) : String :=
  (Progress.start.chunk mode bytes).finish

end Content

end FileCensus
