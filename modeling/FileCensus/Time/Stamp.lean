import FileCensus.Text.Numeral
import FileCensus.Time.Calendar

/-!
# Time stamps

A modification time counts milliseconds from the start of 1970. It is written as a date and time of
the day in UTC, or as a plain number outside the years that dates are written for. It is read from a
date and time with an offset, in years of four digits, or from a plain number.
-/

namespace FileCensus.Stamp

open Calendar

def epochDay : Int := 719162

def millisPerDay : Int := 86400000

def firstMillis : Int := ((⟨-262143, 1, 1⟩ : Date).number - epochDay) * millisPerDay

def lastMillis : Int := ((⟨262143, 1, 1⟩ : Date).number - epochDay) * millisPerDay - 1

/-- Four digits, or a sign and at least four digits outside the years 0 to 9999. -/
def yearText (year : Int) : List Char :=
  if 0 ≤ year ∧ year ≤ 9999 then Numeral.padded 4 year.toNat
  else (if year < 0 then '-' else '+') :: Numeral.padded 4 year.natAbs

def dateText (d : Date) : List Char :=
  yearText d.year ++ '-' :: Numeral.padded 2 d.month ++ '-' :: Numeral.padded 2 d.day

/-- The time of the day, from its count of milliseconds. -/
def timeText (millis : Nat) : List Char :=
  Numeral.padded 2 (millis / 3600000) ++ ':' :: Numeral.padded 2 (millis / 60000 % 60)
    ++ ':' :: Numeral.padded 2 (millis / 1000 % 60) ++ '.' :: Numeral.padded 3 (millis % 1000)

def format (millis : Int) : String :=
  if firstMillis ≤ millis ∧ millis ≤ lastMillis then
    String.ofList <| dateText (.ofNumber (millis / millisPerDay + epochDay))
      ++ 'T' :: timeText (millis % millisPerDay).toNat ++ ['Z']
  else Numeral.ofInt millis

/-- The value of a decimal digit. -/
def digit? (c : Char) : Option Nat := if '0' ≤ c ∧ c ≤ '9' then some (c.toNat - '0'.toNat) else none

/-- Exactly `count` digits, and the text after them. -/
def fixed : Nat → Nat → List Char → Option (Nat × List Char)
  | 0, sum, s => some (sum, s)
  | _ + 1, _, [] => none
  | count + 1, sum, c :: rest => do
    let d ← digit? c
    fixed count (sum * 10 + d) rest

def expect (c : Char) : List Char → Option (List Char)
  | [] => none
  | d :: rest => if d = c then some rest else none

def readDate (s : List Char) : Option (Date × List Char) := do
  let (year, s) ← fixed 4 0 s
  let s ← expect '-' s
  let (month, s) ← fixed 2 0 s
  let s ← expect '-' s
  let (day, s) ← fixed 2 0 s
  let date : Date := ⟨year, month, day⟩
  if date.exists then some (date, s) else none

/-- A fraction of a second, cut to milliseconds. -/
def readFraction : List Char → Option (Nat × List Char)
  | '.' :: s =>
    match (s.takeWhile (digit? · |>.isSome)).filterMap digit? with
    | [] => none
    | a :: rest =>
      some (100 * a + 10 * rest.headD 0 + rest.tail.headD 0, s.dropWhile (digit? · |>.isSome))
  | s => some (0, s)

/-- The milliseconds of the day; a sixtieth second counts after the fifty-ninth of any minute. -/
def readTime (s : List Char) : Option (Nat × List Char) := do
  let (hour, s) ← fixed 2 0 s
  let s ← expect ':' s
  let (minute, s) ← fixed 2 0 s
  let s ← expect ':' s
  let (second, s) ← fixed 2 0 s
  let (millis, s) ← readFraction s
  if hour ≤ 23 ∧ minute ≤ 59 ∧ second ≤ 60 then
    some (hour * 3600000 + minute * 60000 + second * 1000 + millis, s)
  else none

/-- The milliseconds by which local time is ahead. -/
def readOffset : List Char → Option (Int × List Char)
  | [] => none
  | c :: s =>
    if c = 'Z' ∨ c = 'z' then some (0, s)
    else do
      let sign : Int ←
        if c = '+' then some 1 else if c = '-' ∨ c = '\u2212' then some (-1) else none
      let (hours, s) ← fixed 2 0 s
      let s ← expect ':' s
      let (minutes, s) ← fixed 2 0 s
      if hours ≤ 23 ∧ minutes ≤ 59 then
        some (sign * (hours * 3600000 + minutes * 60000), s)
      else none

def isDateSeparator (c : Char) : Bool := c = 'T' || c = 't' || c = ' '

def readMoment (s : List Char) : Option Int := do
  let (date, s) ← readDate s
  let separator ← s.head?
  let (time, s) ← if isDateSeparator separator then readTime s.tail else none
  let (offset, s) ← readOffset s
  if s.isEmpty then some ((date.number - epochDay) * millisPerDay + time - offset) else none

/-- The milliseconds that a text stands for, if any. -/
def parse (s : String) : Option Int :=
  match readMoment s.toList with
  | some millis => some millis
  | none => (Numeral.readInt Numeral.maxTime s.toList).toOption

end FileCensus.Stamp
