import Sotabots.Java.Platform
import Sotabots.Machine.Window
import Mathlib.Data.Rat.Defs
import Mathlib.Algebra.Field.Rat
import Mathlib.Algebra.BigOperators.Group.Finset.Piecewise
import Mathlib.Tactic.NormNum
/-!
# `Vision.average`

The smoothing filter for target coordinates.  Each call stores its sample, adds
the stored samples to two static sums, and returns the sums over 200.  It is
meant as a moving average over the last 200 samples.  It differs from one in two
ways: every 200th call stores nothing, and the sums are never cleared, so that
they add up the windows of all calls so far.

Doubles are exact rationals, and samples are numbered from 1.
-/

namespace Sotabots.Vision

open Finset Java Machine

/-! ## The class -/

structure Statics where
  sumX : Rat
  sumY : Rat
  arrayX : Array Rat
  arrayY : Array Rat
  index : ℕ

def Statics.initial : Statics where
  sumX := 0
  sumY := 0
  arrayX := Array.replicate 200 0
  arrayY := Array.replicate 200 0
  index := 0

/-- The `if` of `average`: store the sample, or wrap around without storing. -/
def record (inputX inputY : Rat) (v : Statics) : Except IndexOutOfBounds Statics :=
  if v.index < v.arrayX.size - 1 then do
    let arrayX ← store v.arrayX v.index inputX
    let arrayY ← store v.arrayY v.index inputY
    return { v with arrayX := arrayX, arrayY := arrayY, index := v.index + 1 }
  else
    return { v with index := 0 }

def accumulate (v : Statics) (i : ℕ) : Except IndexOutOfBounds Statics := do
  let x ← load v.arrayX i
  let y ← load v.arrayY i
  return { v with sumX := v.sumX + x, sumY := v.sumY + y }

def average (inputX inputY : Rat) (v : Statics) :
    Except IndexOutOfBounds (Statics × (Rat × Rat)) := do
  let v ← record inputX inputY v
  let v ← (List.range (v.arrayX.size - 1)).foldlM accumulate v
  return (v, (v.sumX / 200, v.sumY / 200))

def afterCalls (x y : ℕ → Rat) : ℕ → Except IndexOutOfBounds Statics
  | 0 => .ok Statics.initial
  | n + 1 => do
      let v ← afterCalls x y n
      let (v, _) ← average (x (n + 1)) (y (n + 1)) v
      return v

def averageCall (x y : ℕ → Rat) (n : ℕ) : Except IndexOutOfBounds (Rat × Rat) := do
  let v ← afterCalls x y (n - 1)
  let (_, coordinates) ← average (x n) (y n) v
  return coordinates

section Calls

variable {x y : ℕ → Rat} {n : ℕ} {v v' : Statics} {coordinates : Rat × Rat}

theorem afterCalls_succ (hv : afterCalls x y n = .ok v)
    (hcall : average (x (n + 1)) (y (n + 1)) v = .ok (v', coordinates)) :
    afterCalls x y (n + 1) = .ok v' := by
  rw [afterCalls, hv]
  simp only [bind, Except.bind, hcall]
  rfl

theorem averageCall_succ (hv : afterCalls x y n = .ok v)
    (hcall : average (x (n + 1)) (y (n + 1)) v = .ok (v', coordinates)) :
    averageCall x y (n + 1) = .ok coordinates := by
  rw [averageCall, Nat.add_sub_cancel, hv]
  simp only [bind, Except.bind, hcall]
  rfl

end Calls

/-! ## One coordinate -/

def latest (z : ℕ → Rat) : ℕ → ℕ → Rat
  | 0, _ => 0
  | n + 1, j => if n % 200 < 199 ∧ j = n % 200 then z (n + 1) else latest z n j

def rowTotal (z : ℕ → Rat) (n : ℕ) : Rat := ∑ j ∈ range 199, latest z n j

def total (z : ℕ → Rat) (n : ℕ) : Rat := ∑ m ∈ range (n + 1), rowTotal z m

theorem latest_succ_stored (z : ℕ → Rat) {n : ℕ} (hn : n % 200 < 199) :
    latest z (n + 1) = Function.update (latest z n) (n % 200) (z (n + 1)) := by
  funext j
  by_cases hj : j = n % 200
  · simp [latest, hn, hj]
  · simp [latest, hj]

theorem latest_succ_dropped (z : ℕ → Rat) {n : ℕ} (hn : ¬ n % 200 < 199) :
    latest z (n + 1) = latest z n := by
  funext j
  simp [latest, hn]

theorem rowTotal_zero (z : ℕ → Rat) : rowTotal z 0 = 0 := by
  simp [rowTotal, latest]

theorem total_succ (z : ℕ → Rat) (n : ℕ) : total z (n + 1) = total z n + rowTotal z (n + 1) :=
  sum_range_succ _ _

/-! ## The static fields in closed form -/

def staticsAfter (x y : ℕ → Rat) (n : ℕ) : Statics where
  sumX := total x n
  sumY := total y n
  arrayX := tabulate 200 (latest x n)
  arrayY := tabulate 200 (latest y n)
  index := n % 200

theorem record_staticsAfter (x y : ℕ → Rat) (n : ℕ) :
    record (x (n + 1)) (y (n + 1)) (staticsAfter x y n) =
      .ok ⟨total x n, total y n, tabulate 200 (latest x (n + 1)),
        tabulate 200 (latest y (n + 1)), (n + 1) % 200⟩ := by
  unfold record staticsAfter
  simp only [size_tabulate]
  by_cases hn : n % 200 < 199
  · have hindex : (n + 1) % 200 = n % 200 + 1 := by omega
    rw [if_pos hn, store_tabulate _ _ (by omega), store_tabulate _ _ (by omega),
      latest_succ_stored x hn, latest_succ_stored y hn, hindex]
    rfl
  · have hindex : (n + 1) % 200 = 0 := by omega
    rw [if_neg hn, latest_succ_dropped x hn, latest_succ_dropped y hn, hindex]
    rfl

/-- The loop adds up the slots it has passed.  The length of the arrays is a
variable here and in the next lemma: nothing tempts the kernel to build them. -/
theorem foldlM_accumulate {length : ℕ} (f g : ℕ → Rat) (sumX sumY : Rat) (index : ℕ) {k : ℕ}
    (hk : k ≤ length) :
    (List.range k).foldlM accumulate
        ⟨sumX, sumY, tabulate length f, tabulate length g, index⟩ =
      .ok ⟨sumX + ∑ j ∈ range k, f j, sumY + ∑ j ∈ range k, g j, tabulate length f,
        tabulate length g, index⟩ := by
  induction k with
  | zero => simp [pure, Except.pure]
  | succ k ih =>
      rw [List.range_succ, List.foldlM_append, ih (by omega)]
      simp only [bind, Except.bind, List.foldlM_cons, List.foldlM_nil, accumulate,
        load_tabulate _ (show k < length by omega), sum_range_succ, add_assoc, pure, Except.pure]

theorem average_of_record {length : ℕ} {inputX inputY sumX sumY : Rat} {v : Statics}
    {f g : ℕ → Rat} {index : ℕ}
    (hrecord : record inputX inputY v =
      .ok ⟨sumX, sumY, tabulate length f, tabulate length g, index⟩) :
    average inputX inputY v =
      .ok (⟨sumX + ∑ j ∈ range (length - 1), f j, sumY + ∑ j ∈ range (length - 1), g j,
          tabulate length f, tabulate length g, index⟩,
        ((sumX + ∑ j ∈ range (length - 1), f j) / 200,
          (sumY + ∑ j ∈ range (length - 1), g j) / 200)) := by
  unfold average
  rw [hrecord]
  simp only [bind, Except.bind, size_tabulate]
  rw [foldlM_accumulate f g sumX sumY index (by omega)]
  rfl

theorem average_staticsAfter (x y : ℕ → Rat) (n : ℕ) :
    average (x (n + 1)) (y (n + 1)) (staticsAfter x y n) =
      .ok (staticsAfter x y (n + 1), (total x (n + 1) / 200, total y (n + 1) / 200)) := by
  rw [average_of_record (record_staticsAfter x y n), staticsAfter, total_succ, total_succ]
  rfl

theorem staticsAfter_zero (x y : ℕ → Rat) : staticsAfter x y 0 = Statics.initial := by
  have hslots : ∀ z, tabulate 200 (latest z 0) = Array.replicate 200 0 := fun z =>
    tabulate_const 0
  simp [staticsAfter, Statics.initial, total, rowTotal_zero, hslots]

/-- No call fails, and the fields after `n` calls are the closed form. -/
theorem afterCalls_eq (x y : ℕ → Rat) (n : ℕ) : afterCalls x y n = .ok (staticsAfter x y n) := by
  induction n with
  | zero => rw [afterCalls, staticsAfter_zero]
  | succ n ih => exact afterCalls_succ ih (average_staticsAfter x y n)

theorem averageCall_eq (x y : ℕ → Rat) {n : ℕ} (hn : 0 < n) :
    averageCall x y n = .ok (total x n / 200, total y n / 200) := by
  obtain ⟨m, rfl⟩ : ∃ m, n = m + 1 := ⟨n - 1, by omega⟩
  exact averageCall_succ (afterCalls_eq x y m) (average_staticsAfter x y m)

/-! ## The sums as weighted samples -/

/-- The samples as far as they are stored: every 200th call drops its own. -/
def kept (z : ℕ → Rat) (t : ℕ) : Rat := if 200 ∣ t then 0 else z t

theorem kept_zero (z : ℕ → Rat) : kept z 0 = 0 := by
  simp [kept]

theorem latest_eq (z : ℕ → Rat) {j : ℕ} (hj : j < 199) (n : ℕ) :
    latest z n j = if j < n then z (n - (n - 1 - j) % 200) else 0 := by
  induction n with
  | zero => simp [latest]
  | succ n ih =>
      by_cases hslot : j = n % 200
      · have hstored : n % 200 < 199 := by omega
        have hnow : n + 1 - (n + 1 - 1 - j) % 200 = n + 1 := by omega
        rw [latest, if_pos ⟨hstored, hslot⟩, if_pos (by omega), hnow]
      · rw [latest, if_neg (fun h => hslot h.2), ih]
        by_cases hjn : j < n
        · have hsame : n + 1 - (n + 1 - 1 - j) % 200 = n - (n - 1 - j) % 200 := by omega
          rw [if_pos hjn, if_pos (by omega), hsame]
        · rw [if_neg hjn, if_neg (by omega)]

theorem rowTotal_succ (z : ℕ → Rat) (n : ℕ) :
    rowTotal z (n + 1) = rowTotal z n + kept z (n + 1) - kept z (n + 1 - 200) := by
  unfold rowTotal
  by_cases hn : n % 200 < 199
  · have hupdate := sum_update_of_mem (mem_range.mpr hn) (latest z n) (z (n + 1))
    have hsplit := sum_sdiff (singleton_subset_iff.mpr (mem_range.mpr hn)) (f := latest z n)
    have hnew : kept z (n + 1) = z (n + 1) := if_neg (by omega)
    have hold : latest z n (n % 200) = kept z (n + 1 - 200) := by
      rw [latest_eq z hn]
      by_cases hfull : 200 ≤ n
      · have hindex : n - (n - 1 - n % 200) % 200 = n + 1 - 200 := by omega
        rw [if_pos (by omega), hindex, kept, if_neg (by omega)]
      · have hstart : n + 1 - 200 = 0 := by omega
        rw [if_neg (by omega), hstart, kept_zero]
    rw [latest_succ_stored z hn, hupdate, ← hsplit, sum_singleton, hnew, hold]
    ring
  · have hnew : kept z (n + 1) = 0 := if_pos (by omega)
    have hold : kept z (n + 1 - 200) = 0 := if_pos (by omega)
    rw [latest_succ_dropped z hn, hnew, hold]
    ring

theorem rowTotal_eq_window (z : ℕ → Rat) (n : ℕ) : rowTotal z n = window 200 (kept z) n := by
  induction n with
  | zero => rw [rowTotal_zero, window_zero]
  | succ n ih => rw [rowTotal_succ, ih, window_succ (by omega) (kept_zero z)]

theorem total_eq (z : ℕ → Rat) (n : ℕ) :
    total z n = ∑ t ∈ range (n + 1), (min (n + 1 - t) 200 : ℕ) * kept z t := by
  rw [← sum_window (kept_zero z)]
  exact sum_congr rfl fun m _ => rowTotal_eq_window z m

theorem total_eq_split (z : ℕ → Rat) {n : ℕ} (hn : 200 ≤ n) :
    total z n = 200 * ∑ t ∈ Ioc 0 (n - 200), kept z t +
      ∑ t ∈ Ioc (n - 200) n, (n - t : Rat) * kept z t + window 200 (kept z) n := by
  have hfrom : ∑ t ∈ range (n + 1), ((min (n + 1 - t) 200 : ℕ) : Rat) * kept z t =
      ∑ t ∈ Ioc 0 n, ((min (n + 1 - t) 200 : ℕ) : Rat) * kept z t := by
    rw [range_eq_Ico, sum_eq_sum_Ico_succ_bot (by omega), kept_zero, mul_zero, zero_add]
    rfl
  have hold : ∑ t ∈ Ioc 0 (n - 200), ((min (n + 1 - t) 200 : ℕ) : Rat) * kept z t =
      200 * ∑ t ∈ Ioc 0 (n - 200), kept z t := by
    rw [mul_sum]
    apply sum_congr rfl
    intro t ht
    rw [mem_Ioc] at ht
    have hmin : min (n + 1 - t) 200 = 200 := by omega
    rw [hmin]
    norm_num
  have hrecent : ∑ t ∈ Ioc (n - 200) n, ((min (n + 1 - t) 200 : ℕ) : Rat) * kept z t =
      ∑ t ∈ Ioc (n - 200) n, (n - t : Rat) * kept z t + window 200 (kept z) n := by
    rw [window, ← sum_add_distrib]
    apply sum_congr rfl
    intro t ht
    rw [mem_Ioc] at ht
    have hmin : min (n + 1 - t) 200 = n - t + 1 := by omega
    rw [hmin, Nat.cast_add, Nat.cast_sub ht.2, Nat.cast_one]
    ring
  rw [total_eq, hfrom, ← sum_Ioc_consecutive _ (show 0 ≤ n - 200 by omega)
    (show n - 200 ≤ n by omega), hold, hrecent]
  ring

/-- Of the last 200 samples exactly one is dropped. -/
theorem window_eq_kept_add (z : ℕ → Rat) {n : ℕ} (hn : 200 ≤ n) :
    window 200 z n = window 200 (kept z) n + z (200 * (n / 200)) := by
  have hdropped : ∑ t ∈ Ioc (n - 200) n, (if 200 ∣ t then z t else 0) =
      z (200 * (n / 200)) := by
    rw [sum_eq_single (200 * (n / 200))]
    · rw [if_pos (dvd_mul_right 200 (n / 200))]
    · intro t ht hne
      rw [mem_Ioc] at ht
      exact if_neg (by omega)
    · intro hout
      rw [mem_Ioc] at hout
      omega
  rw [← hdropped, window, window, ← sum_add_distrib]
  apply sum_congr rfl
  intro t _
  unfold kept
  split_ifs <;> ring

/-! ## The moving average -/

def mean (z : ℕ → Rat) (n : ℕ) : Rat := window 200 z n / 200

/-- 200 times the stored samples from before the window, and the stored samples
of the window times their age, make up the one sample of the window that was
dropped. -/
def Balanced (z : ℕ → Rat) (n : ℕ) : Prop :=
  200 * ∑ t ∈ Ioc 0 (n - 200), kept z t + ∑ t ∈ Ioc (n - 200) n, (n - t : Rat) * kept z t =
    z (200 * (n / 200))

theorem total_eq_mean_iff (z : ℕ → Rat) {n : ℕ} (hn : 200 ≤ n) :
    total z n / 200 = mean z n ↔ Balanced z n := by
  unfold mean Balanced
  rw [div_left_inj' (by norm_num), total_eq_split z hn, window_eq_kept_add z hn,
    add_comm (window 200 (kept z) n), add_left_inj]

/-- A call returns the moving average exactly when the samples are balanced in
both coordinates. -/
theorem averageCall_eq_mean_iff (x y : ℕ → Rat) {n : ℕ} (hn : 200 ≤ n) :
    averageCall x y n = .ok (mean x n, mean y n) ↔ Balanced x n ∧ Balanced y n := by
  rw [averageCall_eq x y (by omega), ← total_eq_mean_iff x hn, ← total_eq_mean_iff y hn]
  simp

def lastTwo (v : Rat) (t : ℕ) : Rat := if t = 199 ∨ t = 200 then v else 0

theorem averageCall_eq_mean_lastTwo :
    averageCall (lastTwo 3) (lastTwo 5) 200 = .ok (mean (lastTwo 3) 200, mean (lastTwo 5) 200) ∧
      mean (lastTwo 3) 200 = 3 / 100 := by
  have hx : Balanced (lastTwo 3) 200 := by
    unfold Balanced
    decide +kernel
  have hy : Balanced (lastTwo 5) 200 := by
    unfold Balanced
    decide +kernel
  refine ⟨(averageCall_eq_mean_iff _ _ (by omega)).mpr ⟨hx, hy⟩, ?_⟩
  unfold mean window
  decide +kernel

/-- Two hundred samples that are all 1 come out as 100.495. -/
theorem averageCall_ne_mean_ones :
    averageCall (fun _ => 1) (fun _ => 1) 200 = .ok (20099 / 200, 20099 / 200) ∧
      averageCall (fun _ => 1) (fun _ => 1) 200 ≠
        .ok (mean (fun _ => 1) 200, mean (fun _ => 1) 200) := by
  have htotal : total (fun _ => 1) 200 = 20099 := by
    rw [total_eq]
    decide +kernel
  have hmean : mean (fun _ => 1) 200 = 1 := by
    simp [mean, window]
  have hcall : averageCall (fun _ => 1) (fun _ => 1) 200 = .ok (20099 / 200, 20099 / 200) := by
    rw [averageCall_eq _ _ (by omega), htotal]
  refine ⟨hcall, ?_⟩
  rw [hcall, hmean]
  simp only [ne_eq, Except.ok.injEq, Prod.mk.injEq]
  norm_num

end Sotabots.Vision
