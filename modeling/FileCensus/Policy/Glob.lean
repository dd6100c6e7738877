import FileCensus.Text.Utf8

/-!
# Glob patterns

Whether a path matches a pattern, byte by byte. A star stays within a component and a double star
that is a whole component crosses them; a class, braces and escapes work as in a shell, and each
exclamation mark in front inverts the answer. Matching walks both texts with one saved return point
for the last star and one for the last double star, and with a stack of the braces it is in.
-/

namespace FileCensus.Glob

def code (c : Char) : UInt8 := UInt8.ofNat c.toNat

/-- A place in the pattern and a place in the path. -/
structure Place where
  glob : Nat
  path : Nat
  deriving DecidableEq, Repr

def Place.zero : Place := ⟨0, 0⟩

/-- Where matching is, and where it returns to for the last star and the last double star. -/
structure Point where
  glob : Nat
  path : Nat
  star : Place
  doubleStar : Place
  deriving DecidableEq, Repr

structure State where
  point : Point
  braces : List Point
  longest : Nat
  deriving DecidableEq, Repr

/-- Leaves the innermost braces at the longest alternative. -/
def State.pop (s : State) : State :=
  match s.braces with
  | [] => s
  | top :: rest =>
    ⟨{ s.point with path := s.longest, star := top.star, doubleStar := top.doubleStar }, rest,
      if rest.isEmpty then 0 else s.longest⟩

/-- What one step makes of a state: the next step's state, a state in which the pattern's next
element did not match, or a malformed pattern. -/
inductive Outcome where
  | matched (s : State)
  | missed (s : State)
  | malformed
  deriving DecidableEq, Repr

/-- The final answers: a match or not, which an inversion exchanges, or a malformed pattern. -/
inductive Verdict where
  | matches
  | differs
  | malformed
  deriving DecidableEq, Repr

structure Problem where
  pattern : Array UInt8
  path : Array UInt8

namespace Problem

variable (q : Problem)

def glob (i : Nat) : Option UInt8 := q.pattern[i]?

def globIs (i : Nat) (c : Char) : Bool := q.pattern[i]? = some (code c)

def pathIs (i : Nat) (c : Char) : Bool := q.path[i]? = some (code c)

/-- The place after every further double-star component. -/
def skipDoubleStars : Nat → Nat → Nat
  | 0, i => i
  | fuel + 1, i =>
    if q.globIs i '/' && q.globIs (i + 1) '*' && q.globIs (i + 2) '*' then
      skipDoubleStars fuel (i + 3)
    else i

/-- The byte that stands at a place of the pattern, and its own place if it is escaped. -/
def unescape (i : Nat) : Option (UInt8 × Nat) :=
  match q.glob i with
  | none => none
  | some c =>
    if c = code '\\' then
      match q.glob (i + 1) with
      | none => none
      | some e =>
        let byte :=
          if e = code 'b' then 8 else if e = code 'n' then 10 else if e = code 'r' then 13
          else if e = code 't' then 9 else e
        some (byte, i + 1)
    else some (c, i)

inductive BraceEnd where
  | unclosed
  | comma (i : Nat)
  | brace (i : Nat)

/-- The place after the braces that matching is in, or after the next comma of their own. -/
def skipBraces (stopAtComma : Bool) : Nat → Nat → Nat → Bool → BraceEnd
  | 0, i, depth, _ => if depth = 0 then .brace i else .unclosed
  | fuel + 1, i, depth, inClass =>
    if depth = 0 then .brace i
    else
      match q.glob i with
      | none => .unclosed
      | some c =>
        if c = code '{' && !inClass then
          skipBraces stopAtComma fuel (i + 1) (depth + 1) inClass
        else if c = code '}' && !inClass then
          skipBraces stopAtComma fuel (i + 1) (depth - 1) inClass
        else if c = code ',' && stopAtComma && depth = 1 && !inClass then .comma (i + 1)
        else if (c = code '*' || c = code '?' || c = code '[') && !inClass then
          let double := c = code '*' && q.globIs (i + 1) '*'
          let i := if double then q.skipDoubleStars fuel (i + 2) - 1 else i
          skipBraces stopAtComma fuel (i + 1) depth (c = code '[')
        else if c = code ']' then skipBraces stopAtComma fuel (i + 1) depth false
        else if c = code '\\' then skipBraces stopAtComma fuel (i + 2) depth inClass
        else skipBraces stopAtComma fuel (i + 1) depth inClass

def bracesEnd (stopAtComma : Bool) (i : Nat) : BraceEnd :=
  q.skipBraces stopAtComma (q.pattern.size + 1) i 1 false

/-- A star takes nothing yet and is saved as the place to return to. A double star is saved beside it
where it is a whole component or ends the pattern. At a slash, which a star cannot take, matching
returns to the last double star if there is one. -/
def starStep (s : State) : Outcome :=
  let here := s.point
  let double := q.globIs (here.glob + 1) '*'
  let start := if double then q.skipDoubleStars q.pattern.size (here.glob + 2) - 2 else here.glob
  let star : Place := ⟨start, here.path + 1⟩
  let next := if double then start + 2 else start + 1
  let whole := (next < 3 || q.globIs (next - 3) '/') && q.globIs next '/'
  let atStart := here.path = 0 || (here.path < q.path.size && q.pathIs (here.path - 1) '/')
  let doubleStar :=
    if double && (next = q.pattern.size || whole) then star else here.doubleStar
  let next := if double && next ≠ q.pattern.size && whole && atStart then next + 1 else next
  let blocked := doubleStar.path ≠ star.path && q.pathIs here.path '/'
  let crosses := 0 < doubleStar.path && here.path + 1 < q.path.size
  let star : Place :=
    if blocked then if crosses then ⟨doubleStar.glob, star.path⟩ else ⟨star.glob, 0⟩ else star
  let next := if blocked && crosses then doubleStar.glob else next
  let moved (g : Nat) : State := { s with point := ⟨g, here.path, star, doubleStar⟩ }
  if !s.braces.isEmpty && (q.globIs next ',' || q.globIs next '}') then
    match q.bracesEnd false next with
    | .unclosed => .malformed
    | .comma g => .matched (moved g)
    | .brace g => .matched (moved g)
  else .matched (moved next)

/-- Whether a class holds a byte, and the place at its closing bracket. -/
def classHolds (byte : UInt8) : Nat → Nat → Bool → Bool → Option (Bool × Nat)
  | 0, _, _, _ => none
  | fuel + 1, i, first, holds =>
    if q.pattern.size ≤ i then none
    else if !first && q.globIs i ']' then some (holds, i)
    else
      match q.unescape i with
      | none => none
      | some (low, i) =>
        let single := classHolds byte fuel (i + 1) false (holds || low = byte)
        if q.globIs (i + 1) '-' then
          match q.glob (i + 2) with
          | none => single
          | some e =>
            if e = code ']' then single
            else
              match q.unescape (i + 2) with
              | none => none
              | some (high, i) =>
                classHolds byte fuel (i + 1) false (holds || (low ≤ byte && byte ≤ high))
        else single

/-- A class takes a byte that it holds, or does not hold if it is inverted. -/
def classStep (s : State) (byte : UInt8) : Outcome :=
  let i := s.point.glob + 1
  let inverted := q.globIs i '^' || q.globIs i '!'
  let i := if inverted then i + 1 else i
  match q.classHolds byte (q.pattern.size + 1) i true false with
  | none => .malformed
  | some (holds, i) =>
    if holds ≠ inverted then
      .matched { s with point := { s.point with glob := i + 1, path := s.point.path + 1 } }
    else .missed { s with point := { s.point with glob := i + 1 } }

/-- Any other element takes the byte that it stands for. After a closing brace it also leaves the
braces, whose longest alternative then ends here. -/
def literalStep (s : State) (byte : UInt8) : Outcome :=
  match q.unescape s.point.glob with
  | none => .malformed
  | some (c, g) =>
    if byte = c then
      let s := { s with point := { s.point with glob := g } }
      let s := if !s.braces.isEmpty && 0 < g && q.globIs (g - 1) '}' then
        State.pop { s with longest := s.point.path } else s
      let doubleStar := if c = code '/' then s.point.doubleStar else ⟨s.point.doubleStar.glob, 0⟩
      .matched { s with point := { s.point with
        glob := s.point.glob + 1, path := s.point.path + 1, doubleStar := doubleStar } }
    else .missed { s with point := { s.point with glob := g } }

def braceLimit : Nat := 10

/-- The step that the next element of the pattern asks for. -/
def elementStep (s : State) (c : UInt8) : Outcome :=
  let p := s.point
  let byte := q.path[p.path]?
  if c = code '*' then q.starStep s
  else if c = code '}' && !s.braces.isEmpty then
    .matched <| State.pop
      { s with longest := max s.longest p.path, point := { p with glob := p.glob + 1 } }
  else if c = code ',' && !s.braces.isEmpty then
    let path := (s.braces.head?.map Point.path).getD 0
    .matched { s with longest := max s.longest p.path, point := ⟨p.glob + 1, path, .zero, .zero⟩ }
  else
    match byte with
    | none => .missed s
    | some byte =>
      if c = code '?' then
        if byte = code '/' then .missed s
        else .matched { s with point := { p with glob := p.glob + 1, path := p.path + 1 } }
      else if c = code '[' then q.classStep s byte
      else if c = code '{' then
        if braceLimit ≤ s.braces.length then .malformed
        else .matched ⟨⟨p.glob + 1, p.path, .zero, .zero⟩, p :: s.braces, s.longest⟩
      else q.literalStep s byte

/-- The state at the last star with one more byte given to it, if there is one more. -/
def retryStar (s : State) : Option State :=
  if 0 < s.point.star.path ∧ s.point.star.path ≤ q.path.size then
    some { s with point := { s.point with glob := s.point.star.glob, path := s.point.star.path } }
  else none

/-- The state in which matching goes on after an element did not match. -/
def recover (s : State) : Outcome :=
  match q.retryStar s with
  | some s => .matched s
  | none =>
    match s.braces with
    | [] => .missed s
    | top :: rest =>
      match q.bracesEnd true s.point.glob with
      | .unclosed => .malformed
      | .comma g => .matched { s with point := { s.point with glob := g, path := top.path } }
      | .brace g =>
        if 0 < s.longest then .matched (State.pop { s with point := { s.point with glob := g } })
        else
          match q.retryStar { s with point := top, braces := rest } with
          | some s => .matched s
          | none => .missed s

def step (s : State) : Outcome :=
  match q.glob s.point.glob with
  | none => q.recover s
  | some c =>
    match q.elementStep s c with
    | .missed s => q.recover s
    | outcome => outcome

def run : Nat → State → Verdict
  | 0, _ => .malformed
  | fuel + 1, s =>
    if q.pattern.size ≤ s.point.glob ∧ q.path.size ≤ s.point.path then .matches
    else
      match q.step s with
      | .matched s => run fuel s
      | .missed _ => .differs
      | .malformed => .malformed

end Problem

/-- More steps than any match takes. -/
def stepLimit (q : Problem) : Nat :=
  let places := (q.pattern.size + 2) * (q.path.size + 2)
  places * places

def inversions (pattern : Bytes) : Nat := (pattern.takeWhile (· = code '!')).length

def matchesBytes (pattern path : Bytes) : Bool :=
  let count := inversions pattern
  let q : Problem := ⟨pattern.toArray, path.toArray⟩
  match q.run (stepLimit q) ⟨⟨count, 0, .zero, .zero⟩, [], 0⟩ with
  | .matches => count % 2 = 0
  | .differs => count % 2 = 1
  | .malformed => false

/-- A malformed pattern matches nothing, inverted or not. -/
def isMatch (pattern path : String) : Bool := matchesBytes (Utf8.encode pattern) (Utf8.encode path)

end FileCensus.Glob
