import Mathlib.Order.Monotone.Basic
import Mathlib.Data.Int.Order.Basic
/-!
# The Gregorian calendar

Days are numbered from 1 January 1970, backwards as well as forwards.  A date has a
number, the number of the next date is one more, and no two dates have the same:
so a program that gets the number right gets the date right.  Months are counted
from 0.
-/

namespace Sotabots.Machine

/-! ## Years -/

def IsLeap (y : Int) : Prop := y % 4 = 0 ∧ (y % 100 ≠ 0 ∨ y % 400 = 0)

instance (y : Int) : Decidable (IsLeap y) := inferInstanceAs (Decidable (_ ∧ _))

def yearLength (y : Int) : Int := if IsLeap y then 366 else 365

/-- The leap years from year 1 to year `y`. -/
def leapsThrough (y : Int) : Int := y / 4 - y / 100 + y / 400

/-- From 1 January 1970 to 1 January of year `y`. -/
def daysBefore (y : Int) : Int :=
  365 * (y - 1970) + leapsThrough (y - 1) - leapsThrough 1969

theorem leapsThrough_step (y : Int) :
    leapsThrough y - leapsThrough (y - 1) = if IsLeap y then 1 else 0 := by
  unfold leapsThrough IsLeap
  split_ifs <;> omega

theorem daysBefore_succ (y : Int) : daysBefore (y + 1) = daysBefore y + yearLength y := by
  have hstep := leapsThrough_step y
  unfold daysBefore yearLength
  rw [Int.add_sub_cancel]
  split_ifs at hstep ⊢ <;> omega

theorem leapsThrough_mono (y : Int) {q : Int} (hq : 0 ≤ q) :
    0 ≤ leapsThrough (y + q) - leapsThrough y := by
  have hmono : Monotone leapsThrough := by
    apply monotone_int_of_le_succ
    intro x
    have hstep := leapsThrough_step (x + 1)
    rw [Int.add_sub_cancel] at hstep
    split_ifs at hstep <;> omega
  have hle : leapsThrough y ≤ leapsThrough (y + q) := hmono (by omega)
  omega

theorem leapsThrough_le (y : Int) {q : Int} (hq : 0 ≤ q) :
    leapsThrough (y + q) - leapsThrough y ≤ (q + 3) / 4 := by
  unfold leapsThrough
  omega

theorem yearLength_ge (y : Int) : 365 ≤ yearLength y := by
  unfold yearLength
  split_ifs <;> omega

theorem daysBefore_lt_iff {y z : Int} : daysBefore y < daysBefore z ↔ y < z := by
  have hmono : StrictMono daysBefore := by
    apply strictMono_int_of_lt_succ
    intro x
    have hlength := yearLength_ge x
    rw [daysBefore_succ]
    omega
  exact hmono.lt_iff_lt

/-! ## Months -/

def monthLength (y : Int) : ℕ → Int
  | 1 => if IsLeap y then 29 else 28
  | 3 | 5 | 8 | 10 => 30
  | _ => 31

theorem monthLength_pos (y : Int) (m : ℕ) : 0 < monthLength y m := by
  unfold monthLength
  split
  · split_ifs <;> omega
  all_goals omega

/-- From the first day of the year to the first of month `m`. -/
def daysBeforeMonth (y : Int) : ℕ → Int
  | 0 => 0
  | m + 1 => daysBeforeMonth y m + monthLength y m

theorem daysBeforeMonth_lt_iff (y : Int) {m k : ℕ} :
    daysBeforeMonth y m < daysBeforeMonth y k ↔ m < k := by
  have hmono : StrictMono (daysBeforeMonth y) := by
    apply strictMono_nat_of_lt_succ
    intro x
    have hlength := monthLength_pos y x
    rw [daysBeforeMonth]
    omega
  exact hmono.lt_iff_lt

theorem daysBeforeMonth_nonneg (y : Int) (m : ℕ) : 0 ≤ daysBeforeMonth y m := by
  have hzero : daysBeforeMonth y 0 = 0 := rfl
  rw [← hzero]
  exact not_lt.mp fun hlt => Nat.not_lt_zero _ ((daysBeforeMonth_lt_iff y).mp hlt)

theorem daysBeforeMonth_twelve (y : Int) : daysBeforeMonth y 12 = yearLength y := by
  simp only [daysBeforeMonth, monthLength, yearLength]
  split_ifs <;> rfl

/-! ## Dates -/

@[ext]
structure Date where
  year : Int
  month : ℕ
  day : Int
  deriving DecidableEq, Repr

namespace Date

structure Valid (d : Date) : Prop where
  month : d.month < 12
  first : 1 ≤ d.day
  last : d.day ≤ monthLength d.year d.month

def dayNumber (d : Date) : Int := daysBefore d.year + daysBeforeMonth d.year d.month + d.day - 1

def next (d : Date) : Date :=
  if d.day < monthLength d.year d.month then { d with day := d.day + 1 }
  else if d.month + 1 < 12 then ⟨d.year, d.month + 1, 1⟩
  else ⟨d.year + 1, 0, 1⟩

variable {d e : Date}

theorem Valid.day_le (h : d.Valid) : d.day ≤ 31 := by
  have hlast := h.last
  unfold monthLength at hlast
  split at hlast
  · split_ifs at hlast <;> omega
  all_goals omega

theorem Valid.next (h : d.Valid) : d.next.Valid := by
  have hmonth := h.month
  have hfirst := h.first
  unfold Date.next
  split_ifs with hday hyear
  · exact ⟨hmonth, Int.le_add_one hfirst, hday⟩
  · exact ⟨hyear, le_rfl, monthLength_pos _ _⟩
  · exact ⟨Nat.zero_lt_succ 11, le_rfl, monthLength_pos _ _⟩

theorem Valid.dayNumber_next (h : d.Valid) : d.next.dayNumber = d.dayNumber + 1 := by
  have hmonth := h.month
  have hlast := h.last
  unfold Date.next dayNumber
  split_ifs with hday hyear
  · simp only
    omega
  · simp only [daysBeforeMonth]
    omega
  · -- the last day of the year
    have hdecember : d.month = 11 := by omega
    have htotal := daysBeforeMonth_twelve d.year
    rw [hdecember] at hday hlast ⊢
    rw [daysBeforeMonth] at htotal
    simp only [daysBefore_succ, daysBeforeMonth] at htotal ⊢
    omega

theorem Valid.yearDay (h : d.Valid) :
    0 ≤ daysBeforeMonth d.year d.month + d.day - 1 ∧
      daysBeforeMonth d.year d.month + d.day - 1 < yearLength d.year := by
  have hfirst := h.first
  have hlast := h.last
  have hmonth := h.month
  have hstart := daysBeforeMonth_nonneg d.year d.month
  have hend : daysBeforeMonth d.year (d.month + 1) ≤ daysBeforeMonth d.year 12 :=
    not_lt.mp fun hlt => by
      have hmonths := (daysBeforeMonth_lt_iff d.year).mp hlt
      omega
  rw [daysBeforeMonth_twelve, daysBeforeMonth] at hend
  omega

theorem Valid.eq_of_dayNumber (hd : d.Valid) (he : e.Valid)
    (h : d.dayNumber = e.dayNumber) : d = e := by
  obtain ⟨year, month, day⟩ := d
  obtain ⟨year', month', day'⟩ := e
  have hdyear := hd.yearDay
  have heyear := he.yearDay
  have hdfirst := hd.first
  have hdlast := hd.last
  have hefirst := he.first
  have helast := he.last
  simp only [dayNumber] at *
  obtain rfl : year = year' := by
    have hle : year < year' + 1 := by
      apply daysBefore_lt_iff.mp
      rw [daysBefore_succ]
      omega
    have hge : year' < year + 1 := by
      apply daysBefore_lt_iff.mp
      rw [daysBefore_succ]
      omega
    omega
  obtain rfl : month = month' := by
    have hle : month < month' + 1 := by
      apply (daysBeforeMonth_lt_iff year).mp
      rw [daysBeforeMonth]
      omega
    have hge : month' < month + 1 := by
      apply (daysBeforeMonth_lt_iff year).mp
      rw [daysBeforeMonth]
      omega
    omega
  obtain rfl : day = day' := by omega
  rfl

end Date

end Sotabots.Machine
