import Sotabots.Vision.Average
import Sotabots.Vision.Target
import Mathlib.Algebra.Order.BigOperators.Group.Finset
import Mathlib.Tactic.GCongr
/-!
# Aiming at what `Vision.average` returns

`average` smooths the coordinates that `leftRight` and `target` decide on.  Since
its sums are never cleared, the coordinates of a target that stands still move to
the right by almost its whole distance from the left edge with every call.  So
the class loses any target in the end: from some call on, `leftRight` has it on
the right, and `target` does not return.
-/

namespace Sotabots.Vision

open Finset Java

/-- `leftRight(c1, c2)`: the result, and the line printed.  A coordinate array may
be null. -/
def leftRight (c1 c2 : Option (Array Rat)) : Except IndexOutOfBounds (Bool × Option String) :=
  match c1, c2 with
  | some _, some _ => .ok (false, some "      Seeing two targets")
  | none, _ => .ok (false, some "        No targets")
  | some c1, none => do
      let x ← load c1 0
      if x < 640 then return (false, none)
      else if 640 < x then return (true, none)
      else return (false, none)

/-! ## The drift -/

theorem le_rowTotal {z : ℕ → Rat} {c : Rat} (hz : ∀ t, c ≤ z t) (n : ℕ) :
    (min n 199 : ℕ) * c ≤ rowTotal z n := by
  have hslots : ∀ j ∈ range 199, (if j < n then c else 0) ≤ latest z n j := by
    intro j hj
    rw [latest_eq z (mem_range.mp hj)]
    split_ifs
    · exact hz _
    · exact le_rfl
  have hcount : (range 199).filter (fun j => j < n) = range (min n 199) := by
    ext j
    rw [mem_filter, mem_range, mem_range]
    omega
  calc ((min n 199 : ℕ) : Rat) * c = ∑ j ∈ range 199, if j < n then c else 0 := by
        rw [← sum_filter, hcount, sum_const, card_range, nsmul_eq_mul]
    _ ≤ rowTotal z n := sum_le_sum hslots

theorem le_sum_min (n : ℕ) :
    199 * ((n : Rat) - 99) ≤ ∑ m ∈ range (n + 1), ((min m 199 : ℕ) : Rat) := by
  have hshort : ∀ k ≤ 198, (∑ m ∈ range (k + 1), ((min m 199 : ℕ) : Rat)) = k * (k + 1) / 2 := by
    intro k hk
    induction k with
    | zero => simp
    | succ k ih =>
        rw [sum_range_succ, ih (by omega), Nat.min_eq_left (by omega)]
        push_cast
        ring
  by_cases hn : n ≤ 198
  · rw [hshort n hn]
    have hroots : (0 : Rat) ≤ (198 - n) * (199 - n) := by
      have hle : (n : Rat) ≤ 198 := by exact_mod_cast hn
      apply mul_nonneg <;> linarith
    linarith
  · obtain ⟨k, rfl⟩ : ∃ k, n = 198 + k := ⟨n - 198, by omega⟩
    clear hn
    induction k with
    | zero =>
        rw [hshort 198 le_rfl]
        norm_num
    | succ k ih =>
        rw [← Nat.add_assoc, sum_range_succ, Nat.min_eq_right (by omega)]
        push_cast at ih ⊢
        linarith

theorem le_total {z : ℕ → Rat} {c : Rat} (hc : 0 ≤ c) (hz : ∀ t, c ≤ z t) (n : ℕ) :
    199 * ((n : Rat) - 99) * c ≤ total z n :=
  calc 199 * ((n : Rat) - 99) * c
      ≤ (∑ m ∈ range (n + 1), ((min m 199 : ℕ) : Rat)) * c :=
        mul_le_mul_of_nonneg_right (le_sum_min n) hc
    _ = ∑ m ∈ range (n + 1), ((min m 199 : ℕ) : Rat) * c := sum_mul _ _ _
    _ ≤ total z n := sum_le_sum fun m _ => le_rowTotal hz m

/-! ## What becomes of a target -/

theorem leftRight_of_lt {p : Rat × Rat} (h : 640 < p.1) :
    leftRight (some #[p.1, p.2]) none = .ok (true, none) := by
  have hload : load #[p.1, p.2] 0 = .ok p.1 := rfl
  simp only [leftRight, hload, bind, Except.bind, pure, Except.pure, if_neg (not_lt.mpr h.le),
    if_pos h]

/-- A target whose samples stay at least `c` from the left edge, however far left
that is: once the drift has passed the middle and the tolerance, every later call
of `average` returns coordinates that `leftRight` has on the right and from which
`target` does not return. -/
theorem target_lost {x y : ℕ → Rat} {c : Rat} (hc : 0 ≤ c) (hx : ∀ t, c ≤ x t) (v : Aim) {n : ℕ}
    (hmiddle : 640 < 199 / 200 * ((n : Rat) - 99) * c)
    (htolerance : v.xTarget + v.toleranceX < 199 / 200 * ((n : Rat) - 99) * c) {m : ℕ}
    (hm : n ≤ m) :
    ∃ p, averageCall x y m = .ok p ∧ leftRight (some #[p.1, p.2]) none = .ok (true, none) ∧
      ∀ t, ¬ TargetReturns p v t := by
  have hpos : 0 < m := by
    apply Nat.pos_of_ne_zero
    intro hzero
    obtain rfl : n = 0 := by omega
    rw [Nat.cast_zero] at hmiddle
    linarith
  have hdrift : 199 / 200 * ((n : Rat) - 99) * c ≤ total x m / 200 :=
    calc 199 / 200 * ((n : Rat) - 99) * c
        ≤ 199 / 200 * ((m : Rat) - 99) * c := by
          gcongr
      _ = 199 * ((m : Rat) - 99) * c / 200 := by ring
      _ ≤ total x m / 200 := by
          have htotal := le_total hc hx m
          linarith
  refine ⟨_, averageCall_eq x y hpos, leftRight_of_lt (lt_of_lt_of_le hmiddle hdrift), ?_⟩
  intro t hreturns
  have hwithin := (abs_le.mp (targetReturns_iff.mp hreturns).1.1).2
  linarith

theorem target_lost_quarter :
    ∃ p, averageCall (fun _ => 320) (fun _ => 240) 102 = .ok p ∧
      leftRight (some #[p.1, p.2]) none = .ok (true, none) ∧
      ∀ t, ¬ TargetReturns p ⟨320, 240, 10, 10, 0, 0⟩ t :=
  target_lost (c := 320) (n := 102) (by norm_num) (fun _ => le_rfl) _ (by norm_num) (by norm_num)
    le_rfl

end Sotabots.Vision
