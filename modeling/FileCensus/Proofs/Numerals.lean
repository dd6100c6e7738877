import FileCensus.Text.Numeral

/-!
# Reading written numbers

A written number reads back to itself within the limit, whichever sign it has, and a text with
something else than digits in it is no number.
-/

namespace FileCensus.Numeral

theorem isDigit_iff (c : Char) : c.isDigit ↔ '0' ≤ c ∧ c ≤ '9' := by
  simp [Char.isDigit, Char.le_def]

/-- A digit has its decimal value. -/
theorem digitValue_of_isDigit {c : Char} (h : c.isDigit) :
    digitValue 10 c = some (c.toNat - '0'.toNat) := by
  have hc := (isDigit_iff c).1 h
  have hv : c.toNat - '0'.toNat < 10 := by
    have h9 : c.toNat ≤ '9'.toNat := UInt32.le_iff_toNat_le.1 (Char.le_def.1 hc.2)
    have hn : '9'.toNat = '0'.toNat + 9 := rfl
    omega
  rw [digitValue, if_pos hc, Option.filter_some, if_pos (by simpa using hv)]

theorem digitValue_eq_none {c : Char} (h : c.isDigit = false) : digitValue 10 c = none := by
  have hc : ¬('0' ≤ c ∧ c ≤ '9') := by
    intro hc
    rw [(isDigit_iff c).2 hc] at h
    exact Bool.noConfusion h
  simp only [digitValue, if_neg hc]
  split
  · simp only [Option.filter_eq_none_iff, Option.some.injEq, decide_eq_true_eq]
    rintro _ rfl
    omega
  · split
    · simp only [Option.filter_eq_none_iff, Option.some.injEq, decide_eq_true_eq]
      rintro _ rfl
      omega
    · rfl

theorem le_ofDigitChars (ds : List Char) (sum : Nat) : sum ≤ Nat.ofDigitChars 10 ds sum := by
  induction ds generalizing sum with
  | nil => simp
  | cons c ds ih =>
    rw [Nat.ofDigitChars_cons]
    have := ih (10 * sum + (c.toNat - '0'.toNat))
    omega

/-- Sums only grow, so the limit holds on the way if it holds at the end. -/
theorem accumulate_digits {limit sum : Nat} {ds : List Char} (hd : ∀ c ∈ ds, c.isDigit)
    (h : Nat.ofDigitChars 10 ds sum ≤ limit) :
    accumulate 10 limit sum ds = .ok (Nat.ofDigitChars 10 ds sum) := by
  induction ds generalizing sum with
  | nil => simp [accumulate]
  | cons c ds ih =>
    have hc := hd c List.mem_cons_self
    rw [Nat.ofDigitChars_cons, Nat.mul_comm] at h
    have hsum := Nat.le_trans (le_ofDigitChars ds _) h
    have hrest := ih (fun x hx => hd x (List.mem_cons_of_mem _ hx)) h
    rw [accumulate, digitValue_of_isDigit hc, Nat.ofDigitChars_cons, Nat.mul_comm 10 sum]
    simp only [if_pos hsum]
    exact hrest

theorem accumulate_error (limit sum : Nat) {s : List Char} {c : Char} (hc : c ∈ s)
    (h : c.isDigit = false) : (accumulate 10 limit sum s).toOption = none := by
  induction s generalizing sum with
  | nil => simp at hc
  | cons d s ih =>
    rw [accumulate]
    rcases List.mem_cons.1 hc with rfl | hc
    · rw [digitValue_eq_none h]
      rfl
    · split
      · rfl
      · split
        · exact ih _ hc
        · rfl

theorem accumulate_tooLarge {limit sum : Nat} {ds : List Char} (hd : ∀ c ∈ ds, c.isDigit)
    (hsum : sum ≤ limit) (h : limit < Nat.ofDigitChars 10 ds sum) :
    (accumulate 10 limit sum ds).toOption = none := by
  induction ds generalizing sum with
  | nil =>
    rw [Nat.ofDigitChars_nil] at h
    omega
  | cons c ds ih =>
    rw [Nat.ofDigitChars_cons, Nat.mul_comm] at h
    rw [accumulate, digitValue_of_isDigit (hd c List.mem_cons_self)]
    simp only
    split
    · rename_i hmore
      exact ih (fun x hx => hd x (List.mem_cons_of_mem _ hx)) hmore h
    · rfl

/-- Digits are read as their value if it is within the limit, and nothing else is read. -/
theorem toOption_accumulate (limit : Nat) (s : List Char) :
    (accumulate 10 limit 0 s).toOption =
      if s.all Char.isDigit ∧ Nat.ofDigitChars 10 s 0 ≤ limit then some (Nat.ofDigitChars 10 s 0)
      else none := by
  by_cases hd : s.all Char.isDigit
  · have hdigits : ∀ c ∈ s, c.isDigit := List.all_eq_true.1 hd
    by_cases h : Nat.ofDigitChars 10 s 0 ≤ limit
    · rw [if_pos ⟨hd, h⟩, accumulate_digits hdigits h]
      rfl
    · rw [if_neg fun hboth => h hboth.2]
      exact accumulate_tooLarge hdigits (Nat.zero_le _) (Nat.lt_of_not_le h)
  · rw [if_neg fun hboth => hd hboth.1]
    obtain ⟨c, hc, hother⟩ := List.all_eq_false.1 (Bool.eq_false_iff.2 hd)
    exact accumulate_error limit 0 hc (Bool.eq_false_iff.2 hother)

theorem isDigit_digits {n : Nat} {c : Char} (hc : c ∈ digits n) : c.isDigit :=
  Nat.isDigit_of_mem_toDigits (by decide) (by decide) hc

theorem readDigits_cons {radix limit : Nat} {s : List Char} (h : s ≠ []) :
    readDigits radix limit s = accumulate radix limit 0 s := by
  cases s with
  | nil => exact absurd rfl h
  | cons c s => rfl

theorem readDigits_digits {limit n : Nat} (h : n ≤ limit) :
    readDigits 10 limit (digits n) = .ok n := by
  have hn : Nat.ofDigitChars 10 (digits n) 0 = n := Nat.ofDigitChars_ten_toDigits
  have hs : digits n ≠ [] := Nat.toDigits_ne_nil
  rw [readDigits_cons hs, accumulate_digits (fun _ => isDigit_digits) (by omega), hn]

theorem toOption_readDigits (limit : Nat) (s : List Char) :
    (readDigits 10 limit s).toOption =
      if s ≠ [] ∧ s.all Char.isDigit ∧ Nat.ofDigitChars 10 s 0 ≤ limit then
        some (Nat.ofDigitChars 10 s 0)
      else none := by
  by_cases hs : s = []
  · rw [hs]
    rfl
  · rw [readDigits_cons hs, toOption_accumulate]
    simp only [ne_eq, hs, not_false_eq_true, true_and]

/-- A number without sign is read with a plus in front or not. -/
theorem toOption_readNat (limit : Nat) (s : List Char) :
    (readNat limit s).toOption =
      (readDigits 10 limit (if s.head? = some '+' then s.tail else s)).toOption := by
  cases s with
  | nil => rfl
  | cons c s =>
    by_cases hplus : c = '+'
    · subst hplus
      cases s with
      | nil => rfl
      | cons d s => rfl
    · simp [readNat, hplus]

/-- A written number begins with a digit, never with a sign. -/
theorem digits_eq_cons (n : Nat) : ∃ c rest, digits n = c :: rest ∧ c.isDigit := by
  cases h : digits n with
  | nil => exact absurd h Nat.toDigits_ne_nil
  | cons c rest => exact ⟨c, rest, rfl, isDigit_digits (h ▸ List.mem_cons_self)⟩

theorem readNat_digits {limit n : Nat} (h : n ≤ limit) : readNat limit (digits n) = .ok n := by
  obtain ⟨c, rest, hs, hc⟩ := digits_eq_cons n
  have hplus : c ≠ '+' := by rintro rfl; simp at hc
  rw [← readDigits_digits h, hs]
  simp [readNat, hplus]

theorem readNat_ofNat {limit n : Nat} (h : n ≤ limit) :
    readNat limit (ofNat n).toList = .ok n := by
  rw [ofNat, String.toList_ofList, readNat_digits h]

theorem readInt_ofInt {limit : Nat} {m : Int} (low : -(limit : Int) - 1 ≤ m) (high : m ≤ limit) :
    readInt limit (ofInt m).toList = .ok m := by
  cases m with
  | ofNat n =>
    obtain ⟨c, rest, hs, hc⟩ := digits_eq_cons n
    have hminus : c ≠ '-' := by rintro rfl; simp at hc
    have hn : readNat limit (c :: rest) = .ok n := hs ▸ readNat_digits (by simpa using high)
    simp only [ofInt, ofNat, String.toList_ofList, hs]
    simp [readInt, hminus, hn, Except.map]
  | negSucc n =>
    obtain ⟨c, rest, hs, -⟩ := digits_eq_cons (n + 1)
    have hn : readDigits 10 (limit + 1) (c :: rest) = .ok (n + 1) :=
      hs ▸ readDigits_digits (by omega)
    simp only [ofInt, String.toList_ofList, hs]
    simp only [readInt, hn]
    rfl

/-! ### Different numbers have different texts -/

theorem ofNat_inj {m n : Nat} : ofNat m = ofNat n ↔ m = n := by
  constructor
  · intro h
    have hm : readNat (max m n) (ofNat m).toList = .ok m := readNat_ofNat (Nat.le_max_left m n)
    have hn : readNat (max m n) (ofNat n).toList = .ok n := readNat_ofNat (Nat.le_max_right m n)
    rw [h] at hm
    exact Except.ok.inj (hm.symm.trans hn)
  · intro h
    rw [h]

theorem ofInt_inj {m n : Int} : ofInt m = ofInt n ↔ m = n := by
  constructor
  · intro h
    have hm : readInt (m.natAbs + n.natAbs) (ofInt m).toList = .ok m :=
      readInt_ofInt (by omega) (by omega)
    have hn : readInt (m.natAbs + n.natAbs) (ofInt n).toList = .ok n :=
      readInt_ofInt (by omega) (by omega)
    rw [h] at hm
    exact Except.ok.inj (hm.symm.trans hn)
  · intro h
    rw [h]

/-- A sign may stand in front; anything else that is no digit spoils a number. -/
theorem readInt_error (limit : Nat) {s : List Char} (first : Char) {c : Char} (hc : c ∈ s)
    (h : c.isDigit = false) : (readInt limit (first :: s)).toOption = none := by
  cases s with
  | nil => simp at hc
  | cons d rest =>
    have hs : c ∈ first :: d :: rest := List.mem_cons_of_mem _ hc
    by_cases hminus : first = '-'
    · subst hminus
      have := accumulate_error (limit + 1) 0 hc h
      simp only [readInt, readDigits]
      cases ha : accumulate 10 (limit + 1) 0 (d :: rest) with
      | error fault => rfl
      | ok n => simp [ha, Except.toOption] at this
    · have hnat : (readNat limit (first :: d :: rest)).toOption = none := by
        by_cases hplus : first = '+'
        · subst hplus
          exact accumulate_error _ _ hc h
        · simpa [readNat, hplus, readDigits] using accumulate_error _ _ hs h
      rw [readInt.eq_2 _ _ (by rintro _ _ ⟨⟩; exact hminus rfl)]
      cases hn : readNat limit (first :: d :: rest) with
      | error fault => rfl
      | ok n => simp [hn, Except.toOption] at hnat

end FileCensus.Numeral
