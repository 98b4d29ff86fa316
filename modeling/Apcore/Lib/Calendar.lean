import Mathlib.Data.List.Basic
import Mathlib.Tactic.Ring

/-! # `Lib.Calendar` — dates, and numerals that sort as numbers

Days are counted from the first of January of the year 1 in the proleptic Gregorian calendar. A later
day has a later date, field by field, and numerals of one width are in the order of the numbers. -/

namespace Calendar

/-! ## Years -/

/-- The days before a year. -/
def daysBeforeYear (year : Int) : Int :=
  365 * (year - 1) + (year - 1) / 4 - (year - 1) / 100 + (year - 1) / 400

/-- How many days there are in February beyond 28. -/
def leapDays (year : Int) : Int :=
  if year % 4 = 0 ∧ (year % 100 ≠ 0 ∨ year % 400 = 0) then 1 else 0

/-- The year of a day: the mean length of a year gives it, but for one year too many or too few. -/
def yearOf (day : Int) : Int :=
  let year := day * 400 / 146097 + 1
  if day < daysBeforeYear year then year - 1
  else if daysBeforeYear (year + 1) ≤ day then year + 1
  else year

theorem daysBeforeYear_succ (year : Int) :
    daysBeforeYear (year + 1) = daysBeforeYear year + 365 + leapDays year := by
  unfold daysBeforeYear leapDays
  split_ifs <;> omega

theorem leapDays_bounds (year : Int) : 0 ≤ leapDays year ∧ leapDays year ≤ 1 := by
  unfold leapDays
  split_ifs <;> omega

theorem yearOf_spec (day : Int) :
    daysBeforeYear (yearOf day) ≤ day ∧ day < daysBeforeYear (yearOf day + 1) := by
  unfold yearOf daysBeforeYear
  dsimp only
  split_ifs <;> omega

theorem daysBeforeYear_mono {year year' : Int} (h : year ≤ year') :
    daysBeforeYear year ≤ daysBeforeYear year' := by
  unfold daysBeforeYear
  omega

/-- Years are known by their first days. -/
theorem yearOf_lt_iff {day year : Int} : yearOf day < year ↔ day < daysBeforeYear year := by
  obtain ⟨hfirst, hlast⟩ := yearOf_spec day
  constructor
  · intro h
    have hmono := daysBeforeYear_mono (show yearOf day + 1 ≤ year from h)
    omega
  · intro h
    by_contra hge
    have hmono := daysBeforeYear_mono (not_lt.mp hge)
    omega

theorem yearOf_mono {day day' : Int} (h : day ≤ day') : yearOf day ≤ yearOf day' := by
  by_contra hlt
  have hday := yearOf_lt_iff.mp (not_le.mp hlt)
  have hfirst := (yearOf_spec day).1
  omega

/-! ## Months -/

/-- The days of a year before a month. -/
def monthStart (leap month : Int) : Int :=
  if month ≤ 2 then 31 * (month - 1) else (153 * (month - 3) + 2) / 5 + 59 + leap

/-- The month of a day of a year, counted from 0. -/
def monthOf (leap rest : Int) : Int :=
  if rest < 59 + leap then rest / 31 + 1 else (5 * (rest - 59 - leap) + 2) / 153 + 3

theorem monthOf_spec {leap rest : Int} (hleap : 0 ≤ leap ∧ leap ≤ 1) (hrest : 0 ≤ rest) :
    monthStart leap (monthOf leap rest) ≤ rest ∧ rest < monthStart leap (monthOf leap rest + 1) := by
  unfold monthOf monthStart
  split_ifs <;> omega

theorem monthStart_mono {leap month month' : Int} (hleap : 0 ≤ leap ∧ leap ≤ 1) (h : month ≤ month') :
    monthStart leap month ≤ monthStart leap month' := by
  unfold monthStart
  split_ifs <;> omega

theorem monthOf_bounds {leap rest : Int} (hleap : 0 ≤ leap ∧ leap ≤ 1) (hrest : 0 ≤ rest)
    (hlast : rest < 365 + leap) : 1 ≤ monthOf leap rest ∧ monthOf leap rest ≤ 12 := by
  unfold monthOf
  split_ifs <;> omega

/-! ## Dates -/

/-- A date. -/
structure Date where
  year : Int
  month : Int
  day : Int

def dateOf (day : Int) : Date :=
  let year := yearOf day
  let rest := day - daysBeforeYear year
  let month := monthOf (leapDays year) rest
  ⟨year, month, rest - monthStart (leapDays year) month + 1⟩

/-- One date is before another. -/
def Date.Before (date date' : Date) : Prop :=
  date.year < date'.year ∨ (date.year = date'.year ∧
    (date.month < date'.month ∨ (date.month = date'.month ∧ date.day < date'.day)))

theorem rest_bounds (day : Int) :
    0 ≤ day - daysBeforeYear (yearOf day) ∧
      day - daysBeforeYear (yearOf day) < 365 + leapDays (yearOf day) := by
  obtain ⟨hfirst, hlast⟩ := yearOf_spec day
  rw [daysBeforeYear_succ] at hlast
  omega

theorem dateOf_bounds (day : Int) :
    (1 ≤ (dateOf day).month ∧ (dateOf day).month ≤ 12) ∧ 1 ≤ (dateOf day).day ∧ (dateOf day).day ≤ 31 := by
  have hleap := leapDays_bounds (yearOf day)
  obtain ⟨hrest, hlast⟩ := rest_bounds day
  have hmonth := monthOf_bounds hleap hrest hlast
  obtain ⟨hstart, hnext⟩ := monthOf_spec hleap hrest
  refine ⟨hmonth, ?_⟩
  show 1 ≤ _ - monthStart _ (monthOf _ _) + 1 ∧ _ - monthStart _ (monthOf _ _) + 1 ≤ 31
  unfold monthStart at hstart hnext ⊢
  split_ifs at hstart hnext ⊢ <;> omega

/-- A later day has a later date. -/
theorem dateOf_before {day day' : Int} (h : day < day') : (dateOf day).Before (dateOf day') := by
  rcases lt_or_eq_of_le (yearOf_mono h.le) with hyear | hyear
  · exact .inl hyear
  · refine .inr ⟨hyear, ?_⟩
    have hleap := leapDays_bounds (yearOf day)
    have hrest := (rest_bounds day).1
    have hrest' := (rest_bounds day').1
    unfold dateOf
    dsimp only
    rw [← hyear] at hrest' ⊢
    have hmonth := monthOf_spec hleap hrest
    have hmonth' := monthOf_spec hleap hrest'
    rcases lt_trichotomy (monthOf (leapDays (yearOf day)) (day - daysBeforeYear (yearOf day)))
      (monthOf (leapDays (yearOf day)) (day' - daysBeforeYear (yearOf day))) with hlt | heq | hgt
    · exact .inl hlt
    · refine .inr ⟨heq, ?_⟩
      rw [heq]
      omega
    · have hmono := monthStart_mono hleap (show _ + 1 ≤ _ from hgt)
      omega

/-! ## Numerals of one width -/

/-- The last digits of a number. -/
def lastDigits : Nat → Nat → List Char
  | 0, _ => []
  | width + 1, n => lastDigits width (n / 10) ++ [(n % 10).digitChar]

/-- A number with zeros before it, up to a width. -/
def padded (width n : Nat) : List Char := List.leftpad width '0' (Nat.toDigits 10 n)

theorem length_lastDigits (width n : Nat) : (lastDigits width n).length = width := by
  induction width generalizing n with
  | zero => rfl
  | succ width ih => rw [lastDigits, List.length_append, ih, List.length_singleton]

theorem lastDigits_zero (width : Nat) : lastDigits width 0 = List.replicate width '0' := by
  induction width with
  | zero => rfl
  | succ width ih => rw [lastDigits, Nat.zero_div, ih, List.replicate_succ']; rfl

/-- A number that fits has all its digits there. -/
theorem padded_eq {width n : Nat} (hwidth : 0 < width) (h : n < 10 ^ width) :
    padded width n = lastDigits width n := by
  induction width generalizing n with
  | zero => cases hwidth
  | succ width ih =>
    unfold padded
    rw [lastDigits]
    by_cases hn : n < 10
    · rw [Nat.toDigits_of_lt_base hn, Nat.div_eq_of_lt hn, Nat.mod_eq_of_lt hn, lastDigits_zero]
      rfl
    · rw [Nat.toDigits_of_base_le (by decide) (not_lt.mp hn)]
      have hdiv : n / 10 < 10 ^ width := Nat.div_lt_of_lt_mul (by rwa [Nat.pow_succ, Nat.mul_comm] at h)
      have hpos : 0 < width := by
        rcases Nat.eq_zero_or_pos width with rfl | hpos
        · exact absurd h hn
        · exact hpos
      rw [← ih hpos hdiv]
      unfold padded List.leftpad
      rw [List.length_append, List.length_singleton, Nat.add_sub_add_right, List.append_assoc]

theorem digitChar_lt {a b : Nat} (h : a < b) (hb : b < 10) : a.digitChar < b.digitChar := by
  have hall : ∀ b < 10, ∀ a < b, a.digitChar < b.digitChar := by decide
  exact hall b hb a h

/-- The smaller number comes first, whatever stands behind. -/
theorem lastDigits_lt {width a b : Nat} (h : a < b) (hb : b < 10 ^ width) (rest rest' : List Char) :
    lastDigits width a ++ rest < lastDigits width b ++ rest' := by
  induction width generalizing a b rest rest' with
  | zero => omega
  | succ width ih =>
    rw [lastDigits, lastDigits, List.append_assoc, List.append_assoc]
    rcases lt_or_eq_of_le (Nat.div_le_div_right h.le : a / 10 ≤ b / 10) with hlt | heq
    · exact ih hlt (Nat.div_lt_of_lt_mul (by rwa [Nat.pow_succ, Nat.mul_comm] at hb)) _ _
    · rw [heq]
      refine List.append_left_lt ?_
      exact List.Lex.rel (digitChar_lt (by omega) (Nat.mod_lt b (by decide)))

end Calendar
