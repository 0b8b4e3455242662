import Mathlib.Algebra.BigOperators.Intervals
import Mathlib.Algebra.BigOperators.Ring.Finset
import Mathlib.Tactic.Ring
/-!
# Sums over a sliding window

`window w g n` is the sum of the last `w` of the samples `g 1, ..., g n`.  Adding
up the windows instead of keeping the last one counts each sample once for every
window it was in; `sum_window` is that count.
-/

namespace Sotabots.Machine

open Finset

variable {R : Type*} [CommRing R] {w : ℕ} {g : ℕ → R}

/-- The sum of the last `w` samples up to `n`; samples are numbered from 1. -/
def window (w : ℕ) (g : ℕ → R) (n : ℕ) : R := ∑ t ∈ Ioc (n - w) n, g t

@[simp] theorem window_zero (w : ℕ) (g : ℕ → R) : window w g 0 = 0 := by
  simp [window]

/-- One more sample comes in and, once the window is full, the oldest leaves.
Sample 0 stands for the samples before the first. -/
theorem window_succ (hw : 0 < w) (hg : g 0 = 0) (n : ℕ) :
    window w g (n + 1) = window w g n + g (n + 1) - g (n + 1 - w) := by
  unfold window
  by_cases hfull : w ≤ n
  · have hfirst : n + 1 - w = n - w + 1 := by omega
    have hnew := sum_Ioc_succ_top (show n - w ≤ n by omega) g
    have hold := sum_Ioc_consecutive g (show n - w ≤ n - w + 1 by omega)
      (show n - w + 1 ≤ n + 1 by omega)
    have holdest : ∑ t ∈ Ioc (n - w) (n - w + 1), g t = g (n - w + 1) := by simp
    rw [hfirst, ← hnew, ← hold, holdest]
    ring
  · have hstart : n + 1 - w = 0 := by omega
    have hstart' : n - w = 0 := by omega
    rw [hstart, hstart', hg, sum_Ioc_succ_top (by omega)]
    ring

theorem window_eq_sum_range (hg : g 0 = 0) (n : ℕ) :
    window w g n = ∑ t ∈ range (n + 1), if n < t + w then g t else 0 := by
  unfold window
  rw [← sum_filter]
  apply sum_subset_zero_on_sdiff
  · intro t ht
    rw [mem_Ioc] at ht
    rw [mem_filter, mem_range]
    omega
  · intro t ht
    rw [mem_sdiff, mem_filter, mem_range, mem_Ioc] at ht
    have hzero : t = 0 := by omega
    rw [hzero, hg]
  · intro t _
    rfl

/-- Windows that are added up weigh each sample by the number of windows it was
in: one for every call since it came in, and at most `w`. -/
theorem sum_window (hg : g 0 = 0) (n : ℕ) :
    ∑ m ∈ range (n + 1), window w g m =
      ∑ t ∈ range (n + 1), (min (n + 1 - t) w : ℕ) * g t := by
  induction n with
  | zero => simp [hg]
  | succ n ih =>
      have hweight : ∀ t ∈ range (n + 2), ((min (n + 1 + 1 - t) w : ℕ) : R) * g t =
          (min (n + 1 - t) w : ℕ) * g t + if n + 1 < t + w then g t else 0 := by
        intro t ht
        rw [mem_range] at ht
        split_ifs with hin
        · have hmin : min (n + 1 + 1 - t) w = min (n + 1 - t) w + 1 := by omega
          rw [hmin, Nat.cast_add, Nat.cast_one]
          ring
        · have hmin : min (n + 1 + 1 - t) w = min (n + 1 - t) w := by omega
          rw [hmin, add_zero]
      have hlast : ∑ t ∈ range (n + 2), ((min (n + 1 - t) w : ℕ) : R) * g t =
          ∑ t ∈ range (n + 1), (min (n + 1 - t) w : ℕ) * g t := by
        rw [sum_range_succ]
        simp
      rw [sum_range_succ, ih, window_eq_sum_range hg, sum_congr rfl hweight, sum_add_distrib,
        hlast]

end Sotabots.Machine
