import FileCensus.Ignore.Pattern

/-!
# Reading ignore patterns

A pattern's text becomes tokens from left to right. A double star counts as one only where slashes
or the ends of its part enclose it. A bracket that is never closed is an ordinary character, and so
are all after it; braces that are not balanced, a range that runs backwards and a backslash at the
end leave no pattern.
-/

namespace FileCensus.Ignore

/-- Braces that are open: the tokens before them, and their branches before the current one, both
last first. -/
structure Frame where
  outer : List Token
  branches : List (List Token)

/-- The tokens of the current branch, last first, and the braces around it, innermost first. -/
structure Draft where
  tokens : List Token
  frames : List Frame

namespace Draft

def push (d : Draft) (t : Token) : Draft := { d with tokens := t :: d.tokens }

def literal (d : Draft) (c : Char) : Draft := d.push (.literal (Utf8.encode c.toString))

def openBraces (d : Draft) : Draft := ⟨[], ⟨d.tokens, []⟩ :: d.frames⟩

def comma (d : Draft) : Draft :=
  match d.frames with
  | [] => d.literal ','
  | f :: rest => ⟨[], { f with branches := d.tokens.reverse :: f.branches } :: rest⟩

def closeBraces (d : Draft) : Option Draft :=
  match d.frames with
  | [] => none
  | f :: rest =>
    some ⟨.alternatives (f.branches.reverse ++ [d.tokens.reverse]) :: f.outer, rest⟩

/-- A double star in the place of the slash before it. -/
def joinStars (d : Draft) (atEnd : Bool) : Draft :=
  match d.tokens with
  | .leading :: rest => { d with tokens := .leading :: rest }
  | .trailing :: rest => { d with tokens := .trailing :: rest }
  | rest => { d with tokens := (if atEnd then .trailing else .between) :: rest.tail }

end Draft

/-- The tokens after a double star that stands behind `before`, and what is left of the text. -/
def readDoubleStar (d : Draft) (before : Option Char) (rest : List Char) : Draft × List Char :=
  let plain := ((d.push .star).push .star, rest)
  if d.tokens.isEmpty then
    match rest with
    | [] => (d.push .leading, [])
    | '/' :: more => (d.push .leading, more)
    | _ => plain
  else
    let opensBranch := !d.frames.isEmpty && (before = some ',' || before = some '\x7b')
    if before ≠ some '/' && !opensBranch then plain
    else
      match rest with
      | [] => (d.joinStars true, [])
      | '/' :: more => (d.joinStars false, more)
      | c :: _ =>
        if !d.frames.isEmpty && (c = ',' || c = '\x7d') then (d.joinStars true, rest) else plain

/-- The ranges of bytes that a range of characters gives: their bytes one by one, and a range from
the last byte of the first to the first byte of the last. -/
def byteRanges (range : Char × Char) : List (UInt8 × UInt8) :=
  let low := Utf8.encode range.1.toString
  let high := Utf8.encode range.2.toString
  if range.1 = range.2 then low.map fun b => (b, b)
  else
    low.dropLast.map (fun b => (b, b)) ++ [(low.getLastD 0, high.headD 0)]
      ++ high.tail.map fun b => (b, b)

inductive ClassText where
  | closed (ranges : List (Char × Char)) (rest : List Char)
  | unclosed
  | backwards

/-- The ranges up to the closing bracket, the ones before given last first. A bracket or a minus in
front stands for itself. -/
def readRanges (first inRange : Bool) (ranges : List (Char × Char)) : List Char → ClassText
  | [] => .unclosed
  | c :: rest =>
    if c = ']' && !first then
      .closed (if inRange then ('-', '-') :: ranges else ranges).reverse rest
    else if c = '-' && !first && !inRange then readRanges false true ranges rest
    else
      match inRange, ranges with
      | true, (low, _) :: others =>
        if c < low then .backwards else readRanges false false ((low, c) :: others) rest
      | _, _ => readRanges false false ((c, c) :: ranges) rest

/-- The class after an opening bracket: whether it is negated, and its ranges. -/
def readClass (s : List Char) : Bool × ClassText :=
  match s with
  | '!' :: rest => (true, readRanges true false [] rest)
  | '^' :: rest => (true, readRanges true false [] rest)
  | s => (false, readRanges true false [] s)

/-- The tokens of a text, within so many steps. -/
def readTokens : Nat → Bool → Option Char → Draft → List Char → Option Draft
  | _, _, _, d, [] => some d
  | 0, _, _, _, _ :: _ => none
  | fuel + 1, plainBrackets, before, d, c :: rest =>
    if c = '?' then readTokens fuel plainBrackets (some c) (d.push .any) rest
    else if c = '*' then
      match rest with
      | '*' :: more =>
        let (d, left) := readDoubleStar d before more
        let last := if left.length = more.length then '*' else '/'
        readTokens fuel plainBrackets (some last) d left
      | _ => readTokens fuel plainBrackets (some c) (d.push .star) rest
    else if c = '[' && !plainBrackets then
      match readClass rest with
      | (negated, .closed ranges more) =>
        readTokens fuel plainBrackets (some ']')
          (d.push (.oneOf negated (ranges.flatMap byteRanges))) more
      | (_, .unclosed) => readTokens fuel true (some c) (d.literal c) rest
      | (_, .backwards) => none
    else if c = '\x7b' then readTokens fuel plainBrackets (some c) d.openBraces rest
    else if c = '\x7d' then
      match d.closeBraces with
      | none => none
      | some d => readTokens fuel plainBrackets (some c) d rest
    else if c = ',' then readTokens fuel plainBrackets (some c) d.comma rest
    else if c = '\\' then
      match rest with
      | [] => none
      | e :: more => readTokens fuel plainBrackets (some e) (d.literal e) more
    else readTokens fuel plainBrackets (some c) (d.literal c) rest

/-- The pattern of a text, if it has one. -/
def readPattern (s : List Char) : Option Pattern :=
  match readTokens s.length false none ⟨[], []⟩ s with
  | some ⟨tokens, []⟩ => some tokens.reverse
  | _ => none

end FileCensus.Ignore
