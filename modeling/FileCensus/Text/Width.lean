import FileCensus.Text.WidthTable

/-!
# Display width

The number of columns a line of text takes. A character counts by itself unless what follows it says
otherwise: a selector makes it an emoji or text, a joiner or a skin tone makes one picture of two,
and some letters are written as one. So the width is summed from the end of the text.
-/

namespace FileCensus.Text

/-- What a text begins with, as far as it can change the width of the character before it. -/
inductive Start where
  | plain
  | emoji
  | skinTone
  /-- A joiner with an emoji after it. -/
  | joiner
  /-- The selector of emoji, and whether a joiner with an emoji is after it. -/
  | emojiSelector (joins : Bool)
  | textSelector
  | alef
  | subscriptLetter
  deriving DecidableEq, Repr

/-- A character that what follows leaves alone. -/
def alone (c : Char) : Int × Start :=
  let n := c.toNat
  if zeroWidthRanges.holds n then (0, .plain)
  else if 0x1F3FB ≤ n && n ≤ 0x1F3FF then (2, .skinTone)
  else if emojiRanges.holds n then (2, .emoji)
  else if alefRanges.holds n then (1, .alef)
  else if subscriptLetterRanges.holds n then (1, .subscriptLetter)
  else if c = '\u17D8' then (3, .plain)
  else if c = '\u17A4' || wideRanges.holds n then (2, .plain)
  else (1, .plain)

/-- Whether letters join across a character. -/
def joinsAcross (c : Char) : Bool := zeroWidthRanges.holds c.toNat && !opaqueRanges.holds c.toNat

def zeroWidthJoiner : Char := '\u200D'

/-- The sign that writes the letter after it below the one before. -/
def subscriptSign : Char := '\u17D2'

/-- The columns that a character adds to a text that begins with no selector of emoji, and what the
text begins with then. -/
def joined (c : Char) (start : Start) : Int × Start :=
  if c.toNat ≤ 0xA0 then (1, .plain)
  else if c = '\uFE0F' then (0, .emojiSelector (start = .joiner))
  else if c = '\uFE0E' then (0, .textSelector)
  else
    match start, alone c with
    | .textSelector, (columns, next) =>
      if textBaseRanges.holds c.toNat then (1, .plain) else (columns, next)
    | .emoji, (columns, next) => if c = zeroWidthJoiner then (0, .joiner) else (columns, next)
    | .skinTone, (columns, next) =>
      if skinBaseRanges.holds c.toNat then (0, .emoji)
      else if c = zeroWidthJoiner then (0, .joiner)
      else (columns, next)
    | .joiner, (_, .emoji) => (0, .emoji)
    | .joiner, (_, .skinTone) => (0, .skinTone)
    | .alef, (columns, next) =>
      if lamRanges.holds c.toNat then (0, .plain)
      else if joinsAcross c then (0, .alef)
      else (columns, next)
    | .subscriptLetter, (columns, next) =>
      if c = subscriptSign then (-1, .plain) else (columns, next)
    | _, result => result

/-- The columns that a character adds to a text, and what the text begins with then. -/
def before (c : Char) : Start → Int × Start
  | .emojiSelector joins =>
    if emojiBaseRanges.holds c.toNat then (if joins then 0 else 2, .emoji)
    else joined c (if joins then .joiner else .plain)
  | start => joined c start

def widthFrom : List Char → Int × Start
  | [] => (0, .plain)
  | c :: rest =>
    let (columns, start) := widthFrom rest
    let (more, start) := before c start
    (more + columns, start)

def width (s : List Char) : Nat := (widthFrom s).1.toNat

end FileCensus.Text
