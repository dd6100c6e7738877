import FileCensus.Proofs.Calendar
import FileCensus.Proofs.Numerals
import FileCensus.Time.Stamp

/-!
# Reading written time stamps

A time that is written as a date reads back if its year has four digits, and one that is written as a
plain number reads back always. Between them lie the times of years with a sign, which are written as
dates that no reader takes.
-/

namespace FileCensus.Stamp

open Calendar

/-- The first millisecond of a year. -/
def firstOfYear (year : Int) : Int := ((⟨year, 1, 1⟩ : Date).number - epochDay) * millisPerDay

/-- The times in the years 0 to 9999, and those that are written as plain numbers. -/
def legible (millis : Int) : Bool :=
  (firstOfYear 0 ≤ millis && millis < firstOfYear 10000) || millis < firstMillis
    || lastMillis < millis

theorem digit?_of_isDigit {c : Char} (h : c.isDigit) : digit? c = some (c.toNat - '0'.toNat) := by
  rw [digit?, if_pos ((Numeral.isDigit_iff c).1 h)]

theorem digit?_eq_none {c : Char} (h : c.isDigit = false) : digit? c = none := by
  have hc : ¬('0' ≤ c ∧ c ≤ '9') := by
    rw [← Numeral.isDigit_iff, h]
    exact Bool.noConfusion
  rw [digit?, if_neg hc]

/-! ### Fields of digits -/

theorem fixed_digits {ds : List Char} (hd : ∀ c ∈ ds, c.isDigit) (sum : Nat) (rest : List Char) :
    fixed ds.length sum (ds ++ rest) = some (Nat.ofDigitChars 10 ds sum, rest) := by
  induction ds generalizing sum with
  | nil => rfl
  | cons c ds ih =>
    have hrest := ih (fun x hx => hd x (List.mem_cons_of_mem _ hx))
    rw [List.length_cons, List.cons_append, fixed, digit?_of_isDigit (hd c List.mem_cons_self),
      Option.bind_eq_bind, Option.bind_some, hrest, Nat.ofDigitChars_cons, Nat.mul_comm]

theorem fixed_rest {count sum value : Nat} {s rest : List Char}
    (h : fixed count sum s = some (value, rest)) : rest = s.drop count := by
  induction count generalizing sum s with
  | zero => simp_all [fixed]
  | succ count ih =>
    cases s with
    | nil => simp [fixed] at h
    | cons c s =>
      rw [fixed, Option.bind_eq_bind, Option.bind_eq_some_iff] at h
      obtain ⟨d, -, h⟩ := h
      rw [ih h, List.drop_succ_cons]

theorem isDigit_padded {width n : Nat} {c : Char} (hc : c ∈ Numeral.padded width n) : c.isDigit := by
  rcases List.mem_append.1 hc with hc | hc
  · rw [(List.mem_replicate.1 hc).2]
    rfl
  · exact Numeral.isDigit_digits hc

theorem length_padded {width n : Nat} (hw : 0 < width) (h : n < 10 ^ width) :
    (Numeral.padded width n).length = width := by
  have hlen : (Numeral.digits n).length ≤ width := (Nat.length_toDigits_le_iff (by decide) hw).2 h
  rw [Numeral.padded, List.length_append, List.length_replicate]
  omega

theorem ofDigitChars_padded (width n : Nat) :
    Nat.ofDigitChars 10 (Numeral.padded width n) 0 = n := by
  rw [Numeral.padded, Nat.ofDigitChars_append, Nat.ofDigitChars_replicate_zero, Nat.mul_zero]
  exact Nat.ofDigitChars_ten_toDigits

/-- A padded number is read as far as its width. -/
theorem fixed_padded {width n : Nat} (hw : 0 < width) (h : n < 10 ^ width) (rest : List Char) :
    fixed width 0 (Numeral.padded width n ++ rest) = some (n, rest) := by
  have hdigits : ∀ c ∈ Numeral.padded width n, c.isDigit := fun c hc => isDigit_padded hc
  have hf := fixed_digits hdigits 0 rest
  rwa [length_padded hw h, ofDigitChars_padded] at hf

theorem fixed_of_not_digit {count : Nat} {c : Char} {s : List Char} (h : c.isDigit = false) :
    fixed (count + 1) 0 (c :: s) = none := by
  rw [fixed, digit?_eq_none h]
  rfl

@[simp] theorem expect_self (c : Char) (rest : List Char) : expect c (c :: rest) = some rest := by
  simp [expect]

/-! ### Dates and times of the day -/

theorem readDate_dateText {d : Date} (hy : 0 ≤ d.year ∧ d.year ≤ 9999) (hm : d.month < 100)
    (hd : d.day < 100) (he : d.exists) (rest : List Char) :
    readDate (dateText d ++ rest) = some (d, rest) := by
  have hyear : d.year.toNat < 10 ^ 4 := by omega
  have hcast : ((d.year.toNat : Nat) : Int) = d.year := Int.toNat_of_nonneg hy.1
  simp only [readDate, dateText, yearText, if_pos hy, List.append_assoc, List.cons_append,
    fixed_padded (show 0 < 4 by decide) hyear, fixed_padded (show 0 < 2 by decide) hm,
    fixed_padded (show 0 < 2 by decide) hd, expect_self, Option.bind_eq_bind, Option.bind_some,
    hcast]
  rw [if_pos he]

/-- Three digits and something else make a fraction. -/
theorem readFraction_padded {n : Nat} (h : n < 10 ^ 3) {c : Char} (hc : c.isDigit = false)
    (rest : List Char) :
    readFraction ('.' :: (Numeral.padded 3 n ++ c :: rest)) = some (n, c :: rest) := by
  have hlen := length_padded (show 0 < 3 by decide) h
  have hval := ofDigitChars_padded 3 n
  have hdig : ∀ c ∈ Numeral.padded 3 n, c.isDigit := fun c hc => isDigit_padded hc
  generalize Numeral.padded 3 n = ds at hlen hval hdig
  match ds, hlen with
  | [x, y, z], _ =>
    have hx := digit?_of_isDigit (hdig x (by simp))
    have hy := digit?_of_isDigit (hdig y (by simp))
    have hz := digit?_of_isDigit (hdig z (by simp))
    have hstop := digit?_eq_none hc
    have hzero : '0'.toNat = 48 := rfl
    simp only [Nat.ofDigitChars_cons, Nat.ofDigitChars_nil, hzero] at hval
    simp [readFraction, hx, hy, hz, hstop, List.takeWhile, List.dropWhile]
    omega

theorem readTime_timeText {millis : Nat} (h : millis < 86400000) {c : Char} (hc : c.isDigit = false)
    (rest : List Char) : readTime (timeText millis ++ c :: rest) = some (millis, c :: rest) := by
  have hhour : millis / 3600000 < 10 ^ 2 := by omega
  have hminute : millis / 60000 % 60 < 10 ^ 2 := by omega
  have hsecond : millis / 1000 % 60 < 10 ^ 2 := by omega
  have hfraction : millis % 1000 < 10 ^ 3 := by omega
  simp only [readTime, timeText, List.append_assoc, List.cons_append,
    fixed_padded (show 0 < 2 by decide) hhour, fixed_padded (show 0 < 2 by decide) hminute,
    fixed_padded (show 0 < 2 by decide) hsecond, readFraction_padded hfraction hc, expect_self,
    Option.bind_eq_bind, Option.bind_some]
  rw [if_pos (by omega)]
  congr 2
  omega

/-! ### Moments -/

theorem number_firstOfYear (year : Int) : (⟨year, 1, 1⟩ : Date).number = daysBeforeYear year := by
  simp [Date.number, daysBeforeMonth]

/-- The day on which a time falls. -/
def dayOf (millis : Int) : Int := millis / millisPerDay + epochDay

theorem yearOf_dayOf_lt_iff (millis year : Int) :
    yearOf (dayOf millis) < year ↔ millis < firstOfYear year := by
  rw [yearOf_lt_iff, firstOfYear, number_firstOfYear, dayOf]
  simp only [millisPerDay]
  omega

theorem readMoment_format {millis : Int}
    (h : 0 ≤ yearOf (dayOf millis) ∧ yearOf (dayOf millis) ≤ 9999) :
    readMoment (dateText (.ofNumber (dayOf millis))
      ++ 'T' :: timeText (millis % millisPerDay).toNat ++ ['Z']) = some millis := by
  have hmonth : (Date.ofNumber (dayOf millis)).month < 100 :=
    Nat.lt_of_le_of_lt (month_ofNumber_le _) (by decide)
  have hday : (Date.ofNumber (dayOf millis)).day < 100 :=
    Nat.lt_of_le_of_lt (day_ofNumber_le _) (by decide)
  have htime : (millis % millisPerDay).toNat < 86400000 := by
    simp only [millisPerDay]
    omega
  rw [List.append_assoc, List.cons_append]
  simp only [readMoment, readDate_dateText h hmonth hday (exists_ofNumber _),
    readTime_timeText htime (show 'Z'.isDigit = false by decide), readOffset, isDateSeparator,
    Option.bind_eq_bind, Option.bind_some, List.head?_cons, List.tail_cons, number_ofNumber,
    decide_true, Bool.true_or, if_true, true_or, List.isEmpty_nil, Option.some.injEq]
  simp only [dayOf, millisPerDay]
  omega

/-- A text in which no minus follows a digit begins with no date. -/
theorem readDate_eq_none {s : List Char} (h : ∀ c ∈ s, c.isDigit) : readDate s = none := by
  simp only [readDate, Option.bind_eq_bind]
  cases hf : fixed 4 0 s with
  | none => rfl
  | some field =>
    obtain ⟨year, rest⟩ := field
    have hrest := fixed_rest hf
    cases rest with
    | nil => rfl
    | cons c rest =>
      have hc : c.isDigit := h c (List.mem_of_mem_drop (hrest ▸ List.mem_cons_self))
      have hminus : c ≠ '-' := by rintro rfl; simp at hc
      simp [expect, hminus]

theorem readMoment_digits {s : List Char} (h : ∀ c ∈ s, c.isDigit) : readMoment s = none := by
  rw [readMoment, readDate_eq_none h]
  rfl

theorem readMoment_sign {c : Char} {s : List Char} (h : c.isDigit = false) :
    readMoment (c :: s) = none := by
  simp [readMoment, readDate, fixed_of_not_digit h]

theorem parse_ofInt {m : Int} (low : -(Numeral.maxTime : Int) - 1 ≤ m) (high : m ≤ Numeral.maxTime) :
    parse (Numeral.ofInt m) = some m := by
  have hm : readMoment (Numeral.ofInt m).toList = none := by
    cases m with
    | ofNat n =>
      rw [Numeral.ofInt, Numeral.ofNat, String.toList_ofList]
      exact readMoment_digits fun _ => Numeral.isDigit_digits
    | negSucc n =>
      rw [Numeral.ofInt, String.toList_ofList]
      exact readMoment_sign (by decide)
  rw [parse, hm, Numeral.readInt_ofInt low high]
  rfl

/-- A date in a year with a sign is neither a moment nor a number. -/
theorem parse_signedYear {d : Date} (h : ¬(0 ≤ d.year ∧ d.year ≤ 9999)) (rest : List Char) :
    parse (String.ofList (dateText d ++ rest)) = none := by
  have hminus : '-' ∈ Numeral.padded 4 d.year.natAbs ++ '-' :: (Numeral.padded 2 d.month
      ++ '-' :: (Numeral.padded 2 d.day ++ rest)) := by simp
  have htext : ∃ sign : Char, sign.isDigit = false ∧ dateText d ++ rest =
      sign :: (Numeral.padded 4 d.year.natAbs ++ '-' :: (Numeral.padded 2 d.month
        ++ '-' :: (Numeral.padded 2 d.day ++ rest))) := by
    refine ⟨if d.year < 0 then '-' else '+', by split <;> rfl, ?_⟩
    simp [dateText, yearText, if_neg h]
  obtain ⟨sign, hsign, htext⟩ := htext
  have hint := Numeral.readInt_error Numeral.maxTime sign hminus (by decide)
  rw [parse, String.toList_ofList, htext, readMoment_sign hsign, hint]

/-- What becomes of a time that is written and read again. -/
theorem parse_format {m : Int} (low : -(Numeral.maxTime : Int) - 1 ≤ m)
    (high : m ≤ Numeral.maxTime) : parse (format m) = if legible m then some m else none := by
  by_cases hr : firstMillis ≤ m ∧ m ≤ lastMillis
  · have hlt : ¬m < firstMillis ∧ ¬lastMillis < m := by omega
    have hyear := yearOf_dayOf_lt_iff m
    have hl : legible m ↔ 0 ≤ yearOf (dayOf m) ∧ yearOf (dayOf m) ≤ 9999 := by
      simp only [legible, hlt, Bool.or_eq_true, Bool.and_eq_true, decide_eq_true_eq, or_false,
        ← hyear, ← Int.not_lt]
      omega
    rw [format, if_pos hr]
    by_cases hy : 0 ≤ yearOf (dayOf m) ∧ yearOf (dayOf m) ≤ 9999
    · have hmoment := readMoment_format hy
      rw [if_pos (hl.2 hy), parse, String.toList_ofList]
      simp only [dayOf] at hmoment
      rw [hmoment]
    · rw [if_neg (fun h => hy (hl.1 h)), List.append_assoc]
      exact parse_signedYear hy _
  · have hl : legible m := by
      simp only [legible, Bool.or_eq_true, decide_eq_true_eq]
      omega
    rw [format, if_neg hr, if_pos hl, parse_ofInt low high]

/-- Of the times that a record can hold the legible ones are read back from their texts, and the texts
of all others are refused. -/
theorem parse_format_toInt (m : Int64) :
    parse (format m.toInt) = if legible m.toInt then some m.toInt else none := by
  have low : -(Numeral.maxTime : Int) - 1 ≤ m.toInt := m.le_toInt
  have high : m.toInt ≤ Numeral.maxTime := Int.le_of_lt_add_one m.toInt_lt
  exact parse_format low high

/-- The first time after the years of four digits. -/
example : format 253402300800000 = "+10000-01-01T00:00:00.000Z" ∧
    parse (format 253402300800000) = none := by
  decide

end FileCensus.Stamp
