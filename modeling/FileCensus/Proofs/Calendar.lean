import FileCensus.Time.Calendar
import Mathlib.Algebra.GroupWithZero.Nat

/-!
# Dates and day numbers

Every day number belongs to exactly one date that the calendar has, and the years follow one another
without gap. So a date found from a number leads back to that number, and its year is known from the
number of the first day of a year.
-/

namespace FileCensus.Calendar

def yearLength (leap : Bool) : Nat := (monthLengths leap).sum

theorem daysBeforeYear_succ (year : Int) :
    daysBeforeYear (year + 1) = daysBeforeYear year + yearLength (isLeap year) := by
  have hlen : yearLength (isLeap year) = if isLeap year then 366 else 365 := by
    cases isLeap year <;> rfl
  rw [hlen]
  simp only [isLeap, daysBeforeYear, Bool.and_eq_true, Bool.or_eq_true, decide_eq_true_eq]
  split <;> omega

theorem daysBeforeYear_le {a b : Int} (h : a ≤ b) : daysBeforeYear a ≤ daysBeforeYear b := by
  simp only [daysBeforeYear]
  omega

/-- A day lies in a year before `year` exactly if it lies before its first day. -/
theorem yearOf_lt_iff (n year : Int) : yearOf n < year ↔ n < daysBeforeYear year := by
  obtain ⟨low, high⟩ := yearOf_bounds n
  constructor
  · intro h
    have := daysBeforeYear_le (show yearOf n + 1 ≤ year by omega)
    omega
  · intro h
    apply Int.not_le.1
    intro hle
    have := daysBeforeYear_le hle
    omega

theorem foldl_add (ls : List Nat) (n : Nat) : ls.foldl (· + ·) n = n + ls.sum := by
  induction ls generalizing n with
  | nil => rfl
  | cons l ls ih =>
    rw [List.foldl_cons, ih, List.sum_cons]
    omega

/-- The month is the one whose first day comes no later than the day and whose length reaches
over it. -/
theorem monthAndDay_eq {ls : List Nat} {d : Nat} (h : d < ls.sum) (month : Nat) :
    ∃ i, ∃ hi : i < ls.length, ∃ day, monthAndDay month ls d = (month + i, day + 1) ∧
      d = (ls.take i).sum + day ∧ day < ls[i] := by
  induction ls generalizing d month with
  | nil => simp at h
  | cons l ls ih =>
    rw [monthAndDay]
    by_cases hd : d < l
    · exact ⟨0, by simp, d, by rw [if_pos hd]; rfl, by simp, hd⟩
    · have hrest : d - l < ls.sum := by
        rw [List.sum_cons] at h
        omega
      obtain ⟨i, hi, day, heq, hsum, hday⟩ := ih hrest (month + 1)
      refine ⟨i + 1, by simpa using hi, day, ?_, ?_, by simpa using hday⟩
      · rw [if_neg hd, heq, Nat.add_right_comm, Nat.add_assoc]
      · rw [List.take_succ_cons, List.sum_cons]
        omega

@[simp] theorem length_monthLengths (leap : Bool) : (monthLengths leap).length = 12 := by
  cases leap <;> rfl

/-- The day of the year of a number, and that the year has it. -/
theorem dayOfYear_lt (n : Int) :
    (n - daysBeforeYear (yearOf n)).toNat < yearLength (isLeap (yearOf n)) := by
  obtain ⟨low, high⟩ := yearOf_bounds n
  rw [daysBeforeYear_succ] at high
  omega

/-- What a date found from a number looks like. -/
theorem ofNumber_eq (n : Int) :
    ∃ i, ∃ hi : i < (monthLengths (isLeap (yearOf n))).length, ∃ day,
      Date.ofNumber n = ⟨yearOf n, i + 1, day + 1⟩ ∧
      n = daysBeforeYear (yearOf n) + ((monthLengths (isLeap (yearOf n))).take i).sum + day ∧
      day < (monthLengths (isLeap (yearOf n)))[i] := by
  obtain ⟨i, hi, day, heq, hsum, hday⟩ := monthAndDay_eq (dayOfYear_lt n) 1
  refine ⟨i, hi, day, ?_, ?_, hday⟩
  · simp only [Date.ofNumber, heq, Nat.add_comm 1 i]
  · have := (yearOf_bounds n).1
    omega

theorem number_ofNumber (n : Int) : (Date.ofNumber n).number = n := by
  obtain ⟨i, hi, day, heq, hn, -⟩ := ofNumber_eq n
  simp only [heq, Date.number, daysBeforeMonth, foldl_add, Nat.add_sub_cancel, Nat.zero_add]
  omega

theorem exists_ofNumber (n : Int) : (Date.ofNumber n).exists := by
  obtain ⟨i, hi, day, heq, -, hday⟩ := ofNumber_eq n
  simp only [heq, Date.exists, monthLength, Nat.add_sub_cancel, Nat.succ_ne_zero, if_false]
  rw [List.getD_eq_getElem?_getD, List.getElem?_eq_getElem hi]
  simp only [Nat.le_add_left, decide_true, Bool.true_and, decide_eq_true_eq]
  exact hday

theorem month_ofNumber_le (n : Int) : (Date.ofNumber n).month ≤ 12 := by
  obtain ⟨i, hi, day, heq, -, -⟩ := ofNumber_eq n
  rw [heq]
  rwa [length_monthLengths] at hi

theorem day_ofNumber_le (n : Int) : (Date.ofNumber n).day ≤ 31 := by
  obtain ⟨i, hi, day, heq, -, hday⟩ := ofNumber_eq n
  have hlen : ∀ leap, ∀ l ∈ monthLengths leap, l ≤ 31 := by decide
  have hmem := List.getElem_mem hi
  rw [heq]
  exact Nat.le_trans hday (hlen _ _ hmem)

end FileCensus.Calendar
