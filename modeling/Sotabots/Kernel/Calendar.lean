import Sotabots.Machine.Gregorian
import Mathlib.Tactic.IntervalCases
/-!
# Seconds and dates

`time_to_tm` breaks a number of seconds since 1970 down into a date and a time of
day; `mktime` makes the number of a date.  The one corrects a guess at the year
until the days that are left fall into it, the other counts months from March, by
one formula.  Both are compared with the calendar: `time_to_tm` moves on by one
date with every 86400 seconds, from 1 January 1970 on and back, and `mktime` takes
what it gives back to the seconds.

A `long` of `time_to_tm` is an integer without bounds here, of which 64 bits are all
that is ever used; `mktime` computes in words.
-/

namespace Sotabots.Kernel

open Machine

/-! ## `time_to_tm` -/

/-- `__isleap`; `%` is the remainder of C, with the sign of the dividend. -/
def isleap (year : Int) : Bool :=
  year.tmod 4 = 0 && (year.tmod 100 ≠ 0 || year.tmod 400 = 0)

def mathDiv (a b : Int) : Int := a.tdiv b - if a.tmod b < 0 then 1 else 0

def leapsBetween (y1 y2 : Int) : Int :=
  let leaps1 := mathDiv (y1 - 1) 4 - mathDiv (y1 - 1) 100 + mathDiv (y1 - 1) 400
  let leaps2 := mathDiv (y2 - 1) 4 - mathDiv (y2 - 1) 100 + mathDiv (y2 - 1) 400
  leaps2 - leaps1

def monYday : Bool → List Int
  | false => [0, 31, 59, 90, 120, 151, 181, 212, 243, 273, 304, 334, 365]
  | true => [0, 31, 60, 91, 121, 152, 182, 213, 244, 274, 305, 335, 366]

def secsPerDay : Int := 60 * 60 * 24

structure Tm where
  sec : Int
  min : Int
  hour : Int
  mday : Int
  mon : ℕ
  year : Int
  wday : Int
  yday : Int
  deriving DecidableEq, Repr

def borrowDays (rem days : Int) : Int × Int :=
  if rem < 0 then borrowDays (rem + secsPerDay) (days - 1) else (rem, days)
termination_by (-rem).toNat
decreasing_by
  unfold secsPerDay
  omega

def carryDays (rem days : Int) : Int × Int :=
  if secsPerDay ≤ rem then carryDays (rem - secsPerDay) (days + 1) else (rem, days)
termination_by rem.toNat
decreasing_by
  unfold secsPerDay at *
  omega

theorem isleap_eq (y : Int) : isleap y = decide (IsLeap y) := by
  have hzero : ∀ k : Int, y.tmod k = 0 ↔ y % k = 0 := fun k =>
    Int.dvd_iff_tmod_eq_zero.symm.trans Int.dvd_iff_emod_eq_zero
  rw [Bool.eq_iff_iff, decide_eq_true_iff]
  simp only [isleap, IsLeap, hzero, ne_eq, Bool.and_eq_true, Bool.or_eq_true, decide_eq_true_eq]

theorem mathDiv_eq (a : Int) {b : Int} (hb : 0 < b) : mathDiv a b = a / b := by
  have hmod := Int.emod_lt_of_pos a hb
  have hnonneg := Int.emod_nonneg a hb.ne'
  unfold mathDiv
  rw [Int.tdiv_eq_ediv, Int.tmod_eq_emod, Int.sign_eq_one_of_pos hb]
  by_cases h : 0 ≤ a ∨ b ∣ a
  · rw [if_pos h, if_pos h, if_neg (by omega)]
    omega
  · have hrest : a % b ≠ 0 := fun hzero => h (Or.inr (Int.dvd_of_emod_eq_zero hzero))
    rw [if_neg h, if_neg h, if_pos (by omega)]
    omega

theorem leapsBetween_eq (y1 y2 : Int) :
    leapsBetween y1 y2 = leapsThrough (y2 - 1) - leapsThrough (y1 - 1) := by
  unfold leapsBetween leapsThrough
  simp only [mathDiv_eq _ (by decide : (0 : Int) < 4), mathDiv_eq _ (by decide : (0 : Int) < 100),
    mathDiv_eq _ (by decide : (0 : Int) < 400)]

def daysOf (y : Int) : Int := if isleap y then 366 else 365

theorem daysOf_eq (y : Int) : daysOf y = yearLength y := by
  unfold daysOf yearLength
  rw [isleap_eq]
  simp only [decide_eq_true_eq]

/-- A guess that falls short is made up for at once, and one that goes too far by a
quarter of a year for every leap year it has missed: that much closer to the right
year every time, counting days that are too few as 400 more. -/
theorem guess_lt {days y : Int} (h : days < 0 ∨ daysOf y ≤ days) :
    (let yg := y + mathDiv days 365
     let days' := days - ((yg - y) * 365 + leapsBetween y yg)
     (if days' < 0 then 400 - days' else days').toNat) <
      (if days < 0 then 400 - days else days).toNat := by
  have hbefore : y + days / 365 - 1 = y - 1 + days / 365 := by omega
  simp only [mathDiv_eq _ (by decide : (0 : Int) < 365), leapsBetween_eq, hbefore]
  rw [daysOf_eq] at h
  have hlength := yearLength_ge y
  rcases lt_or_ge days 0 with hneg | hpos
  · have hnonneg := leapsThrough_mono (y - 1 + days / 365) (by omega : 0 ≤ -(days / 365))
    have hle := leapsThrough_le (y - 1 + days / 365) (by omega : 0 ≤ -(days / 365))
    rw [Int.add_neg_cancel_right] at hnonneg hle
    rw [if_neg (by omega), if_pos hneg]
    omega
  · have hnonneg := leapsThrough_mono (y - 1) (by omega : 0 ≤ days / 365)
    have hle := leapsThrough_le (y - 1) (by omega : 0 ≤ days / 365)
    rw [if_neg (not_lt.mpr hpos)]
    by_cases hone : days / 365 = 1
    · -- the guess is next year, and the days reach it
      have hstep := leapsThrough_step y
      have hnext : y - 1 + days / 365 = y := by omega
      rw [hnext]
      unfold yearLength at h hlength
      split_ifs at h hstep ⊢ <;> omega
    · split_ifs <;> omega

/-- The loop that guesses the year, "assuming 365 days per year", and corrects the
guess. -/
def correctYear (days y : Int) : Int × Int :=
  if days < 0 ∨ daysOf y ≤ days then
    let yg := y + mathDiv days 365
    correctYear (days - ((yg - y) * 365 + leapsBetween y yg)) yg
  else (days, y)
termination_by (if days < 0 then 400 - days else days).toNat
decreasing_by
  exact guess_lt (by assumption)

/-- `for (y = 11; days < ip[y]; y--)`, from `y` down.  The table starts with 0, and
`days` is not negative. -/
def findMonth (ip : List Int) (days : Int) : ℕ → ℕ
  | 0 => 0
  | y + 1 => if days < ip.getD (y + 1) 0 then findMonth ip days y else y + 1

def timeToTm (totalsecs offset : Int) : Tm :=
  let (rem, days) := borrowDays (totalsecs.tmod secsPerDay + offset) (totalsecs.tdiv secsPerDay)
  let (rem, days) := carryDays rem days
  let wday := (4 + days).tmod 7
  let (yday, y) := correctYear days 1970
  -- the source goes on with `days` for `yday` and with `y` for the month
  let ip := monYday (isleap y)
  let mon := findMonth ip yday 11
  { hour := rem.tdiv (60 * 60)
    min := (rem.tmod (60 * 60)).tdiv 60
    sec := (rem.tmod (60 * 60)).tmod 60
    wday := if wday < 0 then wday + 7 else wday
    year := y - 1900
    yday := yday
    mon := mon
    mday := yday - ip.getD mon 0 + 1 }

/-! ## What the loops find -/

theorem borrowDays_spec (rem days : Int) :
    0 ≤ (borrowDays rem days).1 ∧
      (borrowDays rem days).2 * 86400 + (borrowDays rem days).1 = days * 86400 + rem := by
  fun_induction borrowDays rem days with
  | case1 rem days hneg ih =>
      have hday : secsPerDay = 86400 := rfl
      omega
  | case2 rem days hstop => exact ⟨not_lt.mp hstop, rfl⟩

theorem carryDays_spec {rem : Int} (days : Int) (hrem : 0 ≤ rem) :
    0 ≤ (carryDays rem days).1 ∧ (carryDays rem days).1 < 86400 ∧
      (carryDays rem days).2 * 86400 + (carryDays rem days).1 = days * 86400 + rem := by
  have hday : secsPerDay = 86400 := rfl
  fun_induction carryDays rem days with
  | case1 rem days hlong ih =>
      have hless := ih (by omega)
      omega
  | case2 rem days hstop => exact ⟨hrem, by omega, rfl⟩

theorem splitDays_eq (totalsecs offset : Int) :
    carryDays
        (borrowDays (totalsecs.tmod secsPerDay + offset) (totalsecs.tdiv secsPerDay)).1
        (borrowDays (totalsecs.tmod secsPerDay + offset) (totalsecs.tdiv secsPerDay)).2 =
      ((totalsecs + offset) % 86400, (totalsecs + offset) / 86400) := by
  have hsecs : secsPerDay = 86400 := rfl
  have hsplit := Int.tdiv_mul_add_tmod totalsecs secsPerDay
  obtain ⟨hborrow, hborrowed⟩ := borrowDays_spec (totalsecs.tmod secsPerDay + offset)
    (totalsecs.tdiv secsPerDay)
  obtain ⟨hrem, hshort, hcarried⟩ := carryDays_spec
    (borrowDays (totalsecs.tmod secsPerDay + offset) (totalsecs.tdiv secsPerDay)).2 hborrow
  rw [hsecs] at hsplit hborrowed hcarried hrem hshort ⊢
  ext <;> simp only <;> omega

theorem correctYear_spec (days y : Int) :
    0 ≤ (correctYear days y).1 ∧
      (correctYear days y).1 < yearLength (correctYear days y).2 ∧
      daysBefore (correctYear days y).2 + (correctYear days y).1 = daysBefore y + days := by
  fun_induction correctYear days y with
  | case1 days y hgo yg ih =>
      refine ⟨ih.1, ih.2.1, ih.2.2.trans ?_⟩
      rw [leapsBetween_eq]
      unfold daysBefore
      omega
  | case2 days y hstop =>
      rw [not_or, not_lt, not_le, daysOf_eq] at hstop
      exact ⟨hstop.1, hstop.2, rfl⟩

theorem monYday_getD (y : Int) {m : ℕ} (hm : m ≤ 12) :
    (monYday (isleap y)).getD m 0 = daysBeforeMonth y m := by
  rw [isleap_eq]
  by_cases hleap : IsLeap y
  · rw [decide_eq_true hleap]
    interval_cases m <;> simp [monYday, daysBeforeMonth, monthLength, hleap]
  · rw [decide_eq_false hleap]
    interval_cases m <;> simp [monYday, daysBeforeMonth, monthLength, hleap]

theorem findMonth_spec (y : Int) {days : Int} (hdays : 0 ≤ days) {k : ℕ} (hk : k < 12)
    (hlt : days < daysBeforeMonth y (k + 1)) :
    findMonth (monYday (isleap y)) days k < 12 ∧
      daysBeforeMonth y (findMonth (monYday (isleap y)) days k) ≤ days ∧
      days < daysBeforeMonth y (findMonth (monYday (isleap y)) days k + 1) := by
  induction k with
  | zero => exact ⟨hk, hdays, hlt⟩
  | succ k ih =>
      rw [findMonth, monYday_getD y (by omega)]
      by_cases hearlier : days < daysBeforeMonth y (k + 1)
      · rw [if_pos hearlier]
        exact ih (by omega) hearlier
      · rw [if_neg hearlier]
        exact ⟨hk, not_lt.mp hearlier, hlt⟩

/-! ## A `long` is long enough -/

def FitsLong (v : Int) : Prop := -2 ^ 63 ≤ v ∧ v < 2 ^ 63

def mathDivValues (a b : Int) : List Int := [a.tdiv b, a.tmod b, mathDiv a b]

/-- What `rem` and `days` are in the first loop. -/
def borrowValues (rem days : Int) : List Int :=
  if rem < 0 then rem :: days :: borrowValues (rem + secsPerDay) (days - 1) else [rem, days]
termination_by (-rem).toNat
decreasing_by
  unfold secsPerDay
  omega

def carryValues (rem days : Int) : List Int :=
  if secsPerDay ≤ rem then rem :: days :: carryValues (rem - secsPerDay) (days + 1)
  else [rem, days]
termination_by rem.toNat
decreasing_by
  unfold secsPerDay at *
  omega

def leapsValues (y : Int) : List Int :=
  (y - 1) :: mathDivValues (y - 1) 4 ++ mathDivValues (y - 1) 100 ++ mathDivValues (y - 1) 400 ++
    [mathDiv (y - 1) 4 - mathDiv (y - 1) 100,
      mathDiv (y - 1) 4 - mathDiv (y - 1) 100 + mathDiv (y - 1) 400]

def guessValues (days y yg : Int) : List Int :=
  mathDivValues days 365 ++ leapsValues y ++ leapsValues yg ++
    [yg, yg - y, (yg - y) * 365, leapsBetween y yg, (yg - y) * 365 + leapsBetween y yg]

def yearValues (days y : Int) : List Int :=
  if days < 0 ∨ daysOf y ≤ days then
    let yg := y + mathDiv days 365
    days :: y :: guessValues days y yg ++
      yearValues (days - ((yg - y) * 365 + leapsBetween y yg)) yg
  else [days, y]
termination_by (if days < 0 then 400 - days else days).toNat
decreasing_by
  exact guess_lt (by assumption)

/-- What is computed in `time_to_tm` up to the year, in longs.  All that comes after
it is smaller than a year or a day. -/
def timeToTmValues (totalsecs offset : Int) : List Int :=
  let rem := totalsecs.tmod secsPerDay
  let days := totalsecs.tdiv secsPerDay
  let borrowed := borrowDays (rem + offset) days
  let carried := carryDays borrowed.1 borrowed.2
  [days, rem] ++ borrowValues (rem + offset) days ++ carryValues borrowed.1 borrowed.2 ++
    [4 + carried.2] ++ yearValues carried.2 1970 ++ [(correctYear carried.2 1970).2 - 1900]

theorem mathDivValues_le {a : Int} {n : ℕ} (b : Int) (ha : a.natAbs ≤ n) :
    ∀ v ∈ mathDivValues a b, v.natAbs ≤ n + 1 := by
  have hdiv := Int.natAbs_tdiv_le_natAbs a b
  have hmod : (a.tmod b).natAbs ≤ a.natAbs := by
    rw [Int.natAbs_tmod]
    exact Nat.mod_le _ _
  have hfloor : (mathDiv a b).natAbs ≤ (a.tdiv b).natAbs + 1 := by
    unfold mathDiv
    split_ifs <;> omega
  simp only [mathDivValues, List.forall_mem_cons, List.not_mem_nil, false_imp_iff, implies_true,
    and_true]
  omega

/-- Days and seconds that make up a number of at most 65 bits, with few seconds. -/
structure SplitsFit (rem days : Int) : Prop where
  total : (days * 86400 + rem).natAbs ≤ 2 ^ 64
  rem : rem.natAbs ≤ 2 ^ 32

theorem SplitsFit.values {rem days : Int} (h : SplitsFit rem days) :
    FitsLong rem ∧ FitsLong days := by
  have htotal := h.total
  have hrem := h.rem
  unfold FitsLong
  omega

theorem borrowValues_fit {rem days : Int} (h : SplitsFit rem days) :
    (∀ v ∈ borrowValues rem days, FitsLong v) ∧
      SplitsFit (borrowDays rem days).1 (borrowDays rem days).2 := by
  have hday : secsPerDay = 86400 := rfl
  fun_induction borrowValues rem days with
  | case1 rem days hneg ih =>
      obtain ⟨hrem, hdays⟩ := h.values
      have htotal := h.total
      have hfew := h.rem
      obtain ⟨hvalues, hleft⟩ := ih ⟨by omega, by omega⟩
      rw [borrowDays, if_pos hneg]
      exact ⟨List.forall_mem_cons.mpr ⟨hrem, List.forall_mem_cons.mpr ⟨hdays, hvalues⟩⟩, hleft⟩
  | case2 rem days hstop =>
      rw [borrowDays, if_neg hstop]
      exact ⟨by simp [h.values], h⟩

theorem carryValues_fit {rem days : Int} (h : SplitsFit rem days) :
    ∀ v ∈ carryValues rem days, FitsLong v := by
  have hday : secsPerDay = 86400 := rfl
  fun_induction carryValues rem days with
  | case1 rem days hlong ih =>
      obtain ⟨hrem, hdays⟩ := h.values
      have htotal := h.total
      have hfew := h.rem
      exact List.forall_mem_cons.mpr ⟨hrem, List.forall_mem_cons.mpr
        ⟨hdays, ih ⟨by omega, by omega⟩⟩⟩
  | case2 rem days hstop => simp [h.values]

/-- A year and days that make up a number of at most 48 bits, with days that are not
far from it. -/
structure YearFits (days y : Int) : Prop where
  total : (daysBefore y + days).natAbs ≤ 2 ^ 48
  days : (if days < 0 then 400 - days else days).toNat ≤ 2 ^ 49

theorem YearFits.year {days y : Int} (h : YearFits days y) :
    days.natAbs ≤ 2 ^ 49 ∧ y.natAbs ≤ 2 ^ 50 := by
  have htotal := h.total
  have hdays := h.days
  have hsmall : days.natAbs ≤ 2 ^ 49 := by
    split_ifs at hdays <;> omega
  refine ⟨hsmall, ?_⟩
  unfold daysBefore leapsThrough at htotal
  omega

theorem fitsLong_of_natAbs_le {v : Int} {n : ℕ} (hv : v.natAbs ≤ n) (hn : n ≤ 2 ^ 62) :
    FitsLong v := by
  unfold FitsLong
  omega

theorem leapsValues_fit {y : Int} (hy : y.natAbs ≤ 2 ^ 51) : ∀ v ∈ leapsValues y, FitsLong v := by
  have hsmall : (y - 1).natAbs ≤ 2 ^ 52 := by omega
  have hdiv := fun b => mathDivValues_le b hsmall
  have hfloor : ∀ b, (mathDiv (y - 1) b).natAbs ≤ 2 ^ 52 + 1 :=
    fun b => hdiv b _ (by simp [mathDivValues])
  have h4 := hfloor 4
  have h100 := hfloor 100
  have h400 := hfloor 400
  intro v hv
  simp only [leapsValues, List.mem_append, List.mem_cons, List.not_mem_nil, or_false] at hv
  rcases hv with (((rfl | hv) | hv) | hv) | rfl | rfl
  · exact fitsLong_of_natAbs_le hsmall (by decide)
  · exact fitsLong_of_natAbs_le (hdiv 4 v hv) (by decide)
  · exact fitsLong_of_natAbs_le (hdiv 100 v hv) (by decide)
  · exact fitsLong_of_natAbs_le (hdiv 400 v hv) (by decide)
  · exact fitsLong_of_natAbs_le (by omega : _ ≤ 2 ^ 54) (by decide)
  · exact fitsLong_of_natAbs_le (by omega : _ ≤ 2 ^ 54) (by decide)

theorem guessValues_fit {days y : Int} (hdays : days.natAbs ≤ 2 ^ 49) (hy : y.natAbs ≤ 2 ^ 50) :
    ∀ v ∈ guessValues days y (y + mathDiv days 365), FitsLong v := by
  have hguess := mathDivValues_le 365 hdays
  have hquotient : (mathDiv days 365).natAbs ≤ 2 ^ 49 + 1 := hguess _ (by simp [mathDivValues])
  generalize hyg : y + mathDiv days 365 = yg
  have hnear : yg.natAbs ≤ 2 ^ 51 := by omega
  have hbetween : (leapsBetween y yg).natAbs ≤ 2 ^ 54 := by
    rw [leapsBetween_eq]
    unfold leapsThrough
    omega
  intro v hv
  simp only [guessValues, List.mem_append, List.mem_cons, List.not_mem_nil, or_false] at hv
  rcases hv with ((hv | hv) | hv) | hv
  · exact fitsLong_of_natAbs_le (hguess v hv) (by decide)
  · exact leapsValues_fit (by omega) v hv
  · exact leapsValues_fit hnear v hv
  · rcases hv with rfl | rfl | rfl | rfl | rfl <;>
      exact fitsLong_of_natAbs_le (by omega : _ ≤ 2 ^ 61) (by decide)

theorem yearValues_fit {days y : Int} (h : YearFits days y) :
    (∀ v ∈ yearValues days y, FitsLong v) ∧ (correctYear days y).2.natAbs ≤ 2 ^ 50 := by
  fun_induction yearValues days y with
  | case1 days y hgo yg ih =>
      obtain ⟨hdays, hy⟩ := h.year
      have hless := guess_lt hgo
      have hnext : YearFits (days - ((yg - y) * 365 + leapsBetween y yg)) yg := by
        -- the day number stays, and the days get closer to the year
        refine ⟨?_, hless.le.trans h.days⟩
        have htotal := h.total
        rw [leapsBetween_eq]
        unfold daysBefore at htotal ⊢
        omega
      obtain ⟨hvalues, hyear⟩ := ih hnext
      constructor
      · exact List.forall_mem_cons.mpr ⟨fitsLong_of_natAbs_le hdays (by decide),
          List.forall_mem_cons.mpr ⟨fitsLong_of_natAbs_le hy (by decide),
            List.forall_mem_append.mpr ⟨guessValues_fit hdays hy, hvalues⟩⟩⟩
      · rw [correctYear, if_pos hgo]
        exact hyear
  | case2 days y hstop =>
      obtain ⟨hdays, hy⟩ := h.year
      rw [correctYear, if_neg hstop]
      exact ⟨by simp [fitsLong_of_natAbs_le hdays (by decide),
        fitsLong_of_natAbs_le hy (by decide)], hy⟩

/-- The bounds of a `long` of 64 bits are never met, for any number of seconds in one
and any offset in an `int` of 32: the integers of this file are the program's. -/
theorem timeToTmValues_fit {totalsecs offset : Int} (htotal : FitsLong totalsecs)
    (hoffset : -2 ^ 31 ≤ offset ∧ offset < 2 ^ 31) :
    ∀ v ∈ timeToTmValues totalsecs offset, FitsLong v := by
  have hsecs : secsPerDay = 86400 := rfl
  have hepoch : daysBefore 1970 = 0 := by decide
  have hsplit := Int.tdiv_mul_add_tmod totalsecs secsPerDay
  have hrem : (totalsecs.tmod secsPerDay).natAbs < 86400 := by
    rw [Int.natAbs_tmod]
    exact Nat.mod_lt _ (by decide)
  have hloops := splitDays_eq totalsecs offset
  unfold FitsLong at htotal
  have hstart : SplitsFit (totalsecs.tmod secsPerDay + offset) (totalsecs.tdiv secsPerDay) := by
    rw [hsecs] at hsplit hrem ⊢
    exact ⟨by omega, by omega⟩
  obtain ⟨hborrow, hborrowed⟩ := borrowValues_fit hstart
  have hyears : YearFits ((totalsecs + offset) / 86400) 1970 := by
    refine ⟨by omega, ?_⟩
    split_ifs <;> omega
  obtain ⟨hvalues, hyear⟩ := yearValues_fit hyears
  intro v hv
  simp only [timeToTmValues, hloops, List.mem_append, List.mem_cons, List.not_mem_nil,
    or_false] at hv
  rcases hv with ((((hv | hv) | hv) | hv) | hv) | hv
  · rw [hsecs] at hsplit hrem hv
    unfold FitsLong
    omega
  · exact hborrow v hv
  · exact carryValues_fit hborrowed v hv
  · rw [hv]
    unfold FitsLong
    omega
  · exact hvalues v hv
  · rw [hv]
    unfold FitsLong
    omega

/-- The last second that there is, and the offset that is furthest from it. -/
theorem timeToTmValues_fit_last :
    106751991167300 ∈ timeToTmValues (2 ^ 63 - 1) (-2 ^ 31) ∧
      ∀ v ∈ timeToTmValues (2 ^ 63 - 1) (-2 ^ 31), FitsLong v := by
  constructor
  · have hdays : (2 ^ 63 - 1 : Int).tdiv secsPerDay = 106751991167300 := by decide
    simp only [timeToTmValues, hdays, List.mem_append, List.mem_cons, true_or]
  · exact timeToTmValues_fit ⟨by decide, by decide⟩ ⟨by decide, by decide⟩

/-! ## Dates -/

def Tm.date (tm : Tm) : Date := ⟨tm.year + 1900, tm.mon, tm.mday⟩

def Tm.seconds (tm : Tm) : Int := tm.hour * 3600 + tm.min * 60 + tm.sec

/-- `tm` is the moment `t` seconds after the start of 1970. -/
structure Tm.Tells (tm : Tm) (t : Int) : Prop where
  date : tm.date.Valid
  dayNumber : tm.date.dayNumber = t / 86400
  hour : 0 ≤ tm.hour ∧ tm.hour < 24
  min : 0 ≤ tm.min ∧ tm.min < 60
  sec : 0 ≤ tm.sec ∧ tm.sec < 60
  seconds : tm.seconds = t % 86400
  wday : tm.wday = (4 + t / 86400) % 7
  yday : tm.yday = t / 86400 - daysBefore (tm.year + 1900)

theorem weekday_eq (days : Int) :
    (if (4 + days).tmod 7 < 0 then (4 + days).tmod 7 + 7 else (4 + days).tmod 7) =
      (4 + days) % 7 := by
  rw [Int.tmod_eq_emod]
  split_ifs <;> omega

theorem timeToTm_eq (totalsecs offset : Int) :
    ∃ yday y mon,
      (0 ≤ yday ∧ daysBefore y + yday = (totalsecs + offset) / 86400) ∧
      (mon < 12 ∧ daysBeforeMonth y mon ≤ yday ∧ yday < daysBeforeMonth y (mon + 1)) ∧
      timeToTm totalsecs offset =
        { hour := (totalsecs + offset) % 86400 / 3600
          min := (totalsecs + offset) % 86400 % 3600 / 60
          sec := (totalsecs + offset) % 86400 % 3600 % 60
          wday := (4 + (totalsecs + offset) / 86400) % 7
          year := y - 1900
          yday := yday
          mon := mon
          mday := yday - daysBeforeMonth y mon + 1 } := by
  have hloops := splitDays_eq totalsecs offset
  have hrem : 0 ≤ (totalsecs + offset) % 86400 := Int.emod_nonneg _ (by decide)
  have hrest : 0 ≤ (totalsecs + offset) % 86400 % 3600 := Int.emod_nonneg _ (by decide)
  generalize (totalsecs + offset) / 86400 = days at hloops ⊢
  generalize (totalsecs + offset) % 86400 = rem at hloops hrem hrest ⊢
  obtain ⟨hyday, hyear, hdays⟩ := correctYear_spec days 1970
  generalize hguess : correctYear days 1970 = guess at hyday hyear hdays
  obtain ⟨yday, y⟩ := guess
  simp only at hyday hyear hdays
  have hlast : yday < daysBeforeMonth y (11 + 1) := by
    rw [daysBeforeMonth_twelve]
    exact hyear
  have hmonth := findMonth_spec y hyday (by omega : 11 < 12) hlast
  have hepoch : daysBefore 1970 = 0 := by decide
  refine ⟨yday, y, findMonth (monYday (isleap y)) yday 11, ⟨hyday, by omega⟩, hmonth, ?_⟩
  simp only [timeToTm, hloops, hguess, weekday_eq, monYday_getD y hmonth.1.le,
    Int.tdiv_eq_ediv_of_nonneg hrem, Int.tmod_eq_emod_of_nonneg hrem, Int.reduceMul,
    Int.tdiv_eq_ediv_of_nonneg hrest, Int.tmod_eq_emod_of_nonneg hrest]

theorem timeToTm_tells (totalsecs offset : Int) :
    (timeToTm totalsecs offset).Tells (totalsecs + offset) := by
  obtain ⟨yday, y, mon, ⟨hyday, hdays⟩, ⟨hmonth, hfrom, hto⟩, htm⟩ := timeToTm_eq totalsecs offset
  have hyear : y - 1900 + 1900 = y := Int.sub_add_cancel y 1900
  rw [daysBeforeMonth] at hto
  rw [htm]
  constructor
  · refine ⟨hmonth, ?_, ?_⟩
    · simp only [Tm.date]
      omega
    · simp only [Tm.date, hyear]
      omega
  · simp only [Tm.date, Date.dayNumber, hyear]
    omega
  · simp only
    omega
  · simp only
    omega
  · simp only
    omega
  · simp only [Tm.seconds]
    omega
  · rfl
  · simp only [hyear]
    omega

theorem Tm.Tells.unique {a b : Tm} {t : Int} (ha : a.Tells t) (hb : b.Tells t) : a = b := by
  have hdate : a.date = b.date :=
    ha.date.eq_of_dayNumber hb.date (ha.dayNumber.trans hb.dayNumber.symm)
  have hahour := ha.hour
  have hamin := ha.min
  have hasec := ha.sec
  have hbhour := hb.hour
  have hbmin := hb.min
  have hbsec := hb.sec
  have hseconds := ha.seconds.trans hb.seconds.symm
  have hwday := ha.wday.trans hb.wday.symm
  have hayday := ha.yday
  have hbyday := hb.yday
  obtain ⟨sec, min, hour, mday, mon, year, wday, yday⟩ := a
  obtain ⟨sec', min', hour', mday', mon', year', wday', yday'⟩ := b
  simp only [Tm.date, Tm.seconds, Date.mk.injEq] at *
  obtain rfl : year = year' := by omega
  obtain rfl : hour = hour' := by omega
  obtain rfl : min = min' := by omega
  obtain rfl : sec = sec' := by omega
  obtain rfl : yday = yday' := by omega
  rw [hdate.2.1, hdate.2.2, hwday]

/-- Whatever the time and the offset: 86400 seconds later it is the next date of
the calendar, at the same time of day, on the next day of the week. -/
theorem timeToTm_tomorrow (totalsecs offset : Int) :
    (timeToTm (totalsecs + 86400) offset).date = (timeToTm totalsecs offset).date.next ∧
      (timeToTm (totalsecs + 86400) offset).seconds = (timeToTm totalsecs offset).seconds ∧
      (timeToTm (totalsecs + 86400) offset).wday = ((timeToTm totalsecs offset).wday + 1) % 7 := by
  have htoday := timeToTm_tells totalsecs offset
  have htomorrow := timeToTm_tells (totalsecs + 86400) offset
  have hday : (totalsecs + 86400 + offset) / 86400 = (totalsecs + offset) / 86400 + 1 := by omega
  refine ⟨?_, ?_, ?_⟩
  · apply htomorrow.date.eq_of_dayNumber htoday.date.next
    rw [htomorrow.dayNumber, htoday.date.dayNumber_next, htoday.dayNumber, hday]
  · rw [htomorrow.seconds, htoday.seconds]
    omega
  · rw [htomorrow.wday, htoday.wday, hday]
    omega

/-! ## `mktime` -/

/-- The months from March on, so that the leap day comes last. -/
def mktime (year0 mon0 day hour min sec : UInt32) : UInt64 :=
  let mon := mon0 - 2
  let early := mon.toInt32 ≤ 0
  let year := if early then year0 - 1 else year0
  let mon := if early then mon + 12 else mon
  ((((year / 4 - year / 100 + year / 400 + 367 * mon / 12 + day).toUInt64 +
    (year * 365).toUInt64 - 719499) * 24 + hour.toUInt64) * 60 + min.toUInt64) * 60 + sec.toUInt64

section March

variable {y m d : ℕ}

def marchYear (y m : ℕ) : ℕ := if m < 2 then y - 1 else y

def marchMonth (m : ℕ) : ℕ := if m < 2 then m + 11 else m - 1

theorem early_iff (hm : m < 12) : (UInt32.ofNat (m + 1) - 2).toInt32 ≤ 0 ↔ m < 2 := by
  interval_cases m <;> decide

theorem marchMonth_eq (hm : m < 12) :
    (if m < 2 then UInt32.ofNat (m + 1) - 2 + 12 else UInt32.ofNat (m + 1) - 2) =
      UInt32.ofNat (marchMonth m) := by
  interval_cases m <;> decide

theorem marchYear_eq (hy : 1 ≤ y) :
    (if m < 2 then UInt32.ofNat y - 1 else UInt32.ofNat y) = UInt32.ofNat (marchYear y m) := by
  unfold marchYear
  split_ifs
  · exact (UInt32.ofNat_sub hy).symm
  · rfl

/-- The formula for the days of a year that starts in March. -/
def gaussDays (y m d : ℕ) : ℕ := y / 4 - y / 100 + y / 400 + 367 * m / 12 + d + y * 365

/-- No step of the formula leaves its word. -/
theorem toNat_gaussDays (hy : y ≤ 11000000) (hm : m ≤ 12) (hd : d ≤ 31) :
    ((UInt32.ofNat y / 4 - UInt32.ofNat y / 100 + UInt32.ofNat y / 400 +
      367 * UInt32.ofNat m / 12 + UInt32.ofNat d).toUInt64 +
      (UInt32.ofNat y * 365).toUInt64).toNat = gaussDays y m d := by
  have hyear : y % 2 ^ 32 = y := Nat.mod_eq_of_lt (by omega)
  have hmonth : m % 2 ^ 32 = m := Nat.mod_eq_of_lt (by omega)
  have hday : d % 2 ^ 32 = d := Nat.mod_eq_of_lt (by omega)
  have hleaps : (2 ^ 32 - y / 100 + y / 4) % 2 ^ 32 = y / 4 - y / 100 := by omega
  have hmonths : 367 * m % 2 ^ 32 = 367 * m := Nat.mod_eq_of_lt (by omega)
  have hdays : y * 365 % 2 ^ 32 = y * 365 := Nat.mod_eq_of_lt (by omega)
  simp only [UInt64.toNat_add, UInt32.toNat_toUInt64, UInt32.toNat_add, UInt32.toNat_sub,
    UInt32.toNat_div, UInt32.toNat_mul, UInt32.toNat_ofNat', UInt32.reduceToNat, gaussDays,
    hyear, hmonth, hday, hleaps, hmonths, hdays]
  have hfew : y / 4 - y / 100 ≤ 11000000 := by omega
  generalize y / 4 - y / 100 = leaps at hfew ⊢
  simp (disch := omega) only [Nat.mod_eq_of_lt]

theorem cast_gaussDays (y m d : ℕ) :
    (gaussDays y m d : Int) = leapsThrough y + (367 * m / 12 : ℕ) + d + y * 365 := by
  unfold gaussDays leapsThrough
  omega

theorem gaussDays_eq (hy : 1 ≤ y) (hm : m < 12) :
    (gaussDays (marchYear y m) (marchMonth m) d : Int) = (Date.mk y m d).dayNumber + 719499 := by
  have hepoch : leapsThrough 1969 = 477 := by decide
  rw [cast_gaussDays, marchYear, marchMonth, Date.dayNumber, daysBefore, hepoch]
  by_cases hearly : m < 2
  · -- the leap day of the year itself does not come in
    rw [if_pos hearly, if_pos hearly, Nat.cast_sub hy, Nat.cast_one]
    interval_cases m <;> simp only [daysBeforeMonth, monthLength] <;> omega
  · have hstep := leapsThrough_step y
    rw [if_neg hearly, if_neg hearly]
    interval_cases m <;> simp only [daysBeforeMonth, monthLength] at hearly ⊢ <;>
      split_ifs at hstep ⊢ <;> omega

theorem toNat_mktime (hy : 1970 ≤ y) (hy' : y ≤ 11000000) (hm : m < 12) (hd : 1 ≤ d)
    (hd' : d ≤ 31) {a b c : ℕ} (hhour : a < 24) (hmin : b < 60) (hsec : c < 60) :
    ((mktime (UInt32.ofNat y) (UInt32.ofNat (m + 1)) (UInt32.ofNat d) (UInt32.ofNat a)
        (UInt32.ofNat b) (UInt32.ofNat c)).toNat : Int) =
      (Date.mk y m d).dayNumber * 86400 + a * 3600 + b * 60 + c := by
  have hyear : marchYear y m ≤ 11000000 := by
    unfold marchYear
    split_ifs <;> omega
  have hmonth : marchMonth m ≤ 12 := by
    unfold marchMonth
    split_ifs <;> omega
  have hdays := gaussDays_eq (d := d) (by omega : 1 ≤ y) hm
  have hwords := toNat_gaussDays hyear hmonth hd'
  have hfuture : 0 ≤ (Date.mk y m d).dayNumber := by
    have hyears : daysBefore 1970 ≤ daysBefore y :=
      not_lt.mp fun hlt => by
        have hearlier := daysBefore_lt_iff.mp hlt
        omega
    have hepoch : daysBefore 1970 = 0 := by decide
    have hmonths := daysBeforeMonth_nonneg y m
    simp only [Date.dayNumber]
    omega
  have hlarge : gaussDays (marchYear y m) (marchMonth m) d < 2 ^ 33 := by
    unfold gaussDays
    omega
  simp only [mktime, early_iff hm, marchMonth_eq hm, marchYear_eq (by omega : 1 ≤ y)]
  generalize (UInt32.ofNat (marchYear y m) / 4 - UInt32.ofNat (marchYear y m) / 100 +
    UInt32.ofNat (marchYear y m) / 400 + 367 * UInt32.ofNat (marchMonth m) / 12 +
    UInt32.ofNat d).toUInt64 + (UInt32.ofNat (marchYear y m) * 365).toUInt64 = days at hwords ⊢
  generalize gaussDays (marchYear y m) (marchMonth m) d = g at *
  have hsub : (2 ^ 64 - 719499 + g) % 2 ^ 64 = g - 719499 := by omega
  simp only [UInt64.toNat_add, UInt64.toNat_mul, UInt64.toNat_sub, UInt32.toNat_toUInt64,
    UInt32.toNat_ofNat', UInt64.reduceToNat, hwords, hsub]
  simp (disch := omega) only [Nat.mod_eq_of_lt]
  omega

end March

/-! ## There and back -/

/-- The call of `mktime` with the fields of `tm`, which are signed. -/
def Tm.mktime (tm : Tm) : UInt64 :=
  Kernel.mktime (UInt32.ofInt (tm.year + 1900)) (UInt32.ofInt (tm.mon + 1)) (UInt32.ofInt tm.mday)
    (UInt32.ofInt tm.hour) (UInt32.ofInt tm.min) (UInt32.ofInt tm.sec)

theorem ofInt_natCast (n : ℕ) : UInt32.ofInt n = UInt32.ofNat n := by
  apply UInt32.toNat_inj.mp
  rw [UInt32.ofInt, UInt32.toNat_ofNat', UInt32.toNat_ofNat']
  omega

theorem year_bounds {d : Date} (h : d.Valid) (hfrom : 0 ≤ d.dayNumber)
    (hto : d.dayNumber < 3257812231) : 1970 ≤ d.year ∧ d.year ≤ 11000000 := by
  obtain ⟨hstart, hend⟩ := h.yearDay
  have hepoch : daysBefore 1970 = 0 := by decide
  have hlate : daysBefore 11000000 = 4016947972 := by decide
  unfold Date.dayNumber at hfrom hto
  constructor
  · have hlt : daysBefore 1970 < daysBefore (d.year + 1) := by
      rw [daysBefore_succ]
      omega
    have hyear := daysBefore_lt_iff.mp hlt
    omega
  · have hlt : daysBefore d.year < daysBefore 11000000 := by omega
    exact (daysBefore_lt_iff.mp hlt).le

/-- `mktime` gives the moment that the fields tell. -/
theorem Tm.Tells.mktime_eq {tm : Tm} {t : Int} (h : tm.Tells t) (hfrom : 0 ≤ t)
    (hto : t < 2 ^ 48) : (tm.mktime.toNat : Int) = t := by
  have hdayNumber := h.dayNumber
  obtain ⟨hyear, hyear'⟩ := year_bounds h.date (by omega) (by omega)
  have hmonth := h.date.month
  have hfirst := h.date.first
  have hlast := h.date.day_le
  have hhour := h.hour
  have hmin := h.min
  have hsec := h.sec
  have hseconds := h.seconds
  obtain ⟨sec, min, hour, mday, mon, year, wday, yday⟩ := tm
  simp only [Tm.date, Tm.seconds] at *
  obtain ⟨y, hy⟩ := Int.eq_ofNat_of_zero_le (by omega : 0 ≤ year + 1900)
  obtain ⟨d, rfl⟩ := Int.eq_ofNat_of_zero_le (by omega : 0 ≤ mday)
  obtain ⟨a, rfl⟩ := Int.eq_ofNat_of_zero_le hhour.1
  obtain ⟨b, rfl⟩ := Int.eq_ofNat_of_zero_le hmin.1
  obtain ⟨c, rfl⟩ := Int.eq_ofNat_of_zero_le hsec.1
  rw [hy] at hyear hyear' hdayNumber
  have hvalue := toNat_mktime (y := y) (m := mon) (d := d) (a := a) (b := b) (c := c)
    (by omega) (by omega) hmonth (by omega) (by omega) (by omega) (by omega) (by omega)
  have hmon : ((mon : Int) + 1) = ((mon + 1 : ℕ) : Int) := rfl
  simp only [Tm.mktime, hy, hmon, ofInt_natCast, hvalue, hdayNumber]
  omega

/-- From 1970 on, `mktime` takes the fields that `time_to_tm` gives back to the
seconds. -/
theorem mktime_timeToTm {t : Int} (hfrom : 0 ≤ t) (hto : t < 2 ^ 48) :
    ((timeToTm t 0).mktime.toNat : Int) = t := by
  have htells := timeToTm_tells t 0
  rw [Int.add_zero] at htells
  exact htells.mktime_eq hfrom hto

theorem mktime_timeToTm_leapDay : ((timeToTm 951782400 0).mktime.toNat : Int) = 951782400 :=
  mktime_timeToTm (by decide) (by decide)

/-- And `time_to_tm` takes the seconds that `mktime` gives back to the fields. -/
theorem timeToTm_mktime {tm : Tm} {t : Int} (h : tm.Tells t) (hfrom : 0 ≤ t) (hto : t < 2 ^ 48) :
    timeToTm tm.mktime.toNat 0 = tm := by
  have htells := timeToTm_tells tm.mktime.toNat 0
  rw [h.mktime_eq hfrom hto, Int.add_zero] at htells
  rw [h.mktime_eq hfrom hto]
  exact htells.unique h

def leapNoon : Tm := ⟨0, 0, 12, 29, 1, 100, 2, 59⟩

theorem tells_leapNoon : leapNoon.Tells 951825600 := by
  have hdate : leapNoon.date.Valid := by
    constructor <;> decide
  constructor
  · exact hdate
  all_goals decide

theorem timeToTm_mktime_leapNoon : timeToTm leapNoon.mktime.toNat 0 = leapNoon :=
  timeToTm_mktime tells_leapNoon (by decide) (by decide)

end Sotabots.Kernel
