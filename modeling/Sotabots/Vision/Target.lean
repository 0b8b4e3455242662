import Sotabots.Machine.Loop
import Mathlib.Algebra.Order.Ring.Rat
import Mathlib.Tactic.Linarith
import Mathlib.Tactic.NormNum
import Mathlib.Tactic.Ring
/-!
# `Vision.target`

Four loops, one for each side on which the target can be out of tolerance.  The
coordinates are copied into locals before the loops and never read again, so a
loop that is entered is never left.  A call that returns has entered none of them
and has commanded nothing.  What the loops do command is 0.1 times the distance
on either side: opposite errors get the same sign.

Doubles are exact rationals.
-/

namespace Sotabots.Vision

open Machine

structure Aim where
  xTarget : Rat
  yTarget : Rat
  toleranceX : Rat
  toleranceY : Rat
  motorX : Rat
  motorY : Rat
  deriving DecidableEq, Repr

def aimLoop (outside : Aim → Prop) [DecidablePred outside] (command : Aim → Aim) : Loop Aim where
  test v := (outside v, v)
  body := command

def leftLoop (x : Rat) : Loop Aim :=
  aimLoop (fun v => x < v.xTarget - v.toleranceX)
    fun v => { v with motorX := 1 / 10 * (v.xTarget - x) }

def rightLoop (x : Rat) : Loop Aim :=
  aimLoop (fun v => v.xTarget + v.toleranceX < x)
    fun v => { v with motorX := 1 / 10 * (x - v.xTarget) }

def aboveLoop (y : Rat) : Loop Aim :=
  aimLoop (fun v => y < v.yTarget - v.toleranceY)
    fun v => { v with motorY := 1 / 10 * (v.yTarget - y) }

def belowLoop (y : Rat) : Loop Aim :=
  aimLoop (fun v => v.yTarget + v.toleranceY < y)
    fun v => { v with motorY := 1 / 10 * (y - v.yTarget) }

/-- `target(coor)`, each loop running at most `fuel` tests. -/
def target (coor : Rat × Rat) (fuel : ℕ) (v : Aim) : Option Aim := do
  let v ← (leftLoop coor.1).exec fuel v
  let v ← (rightLoop coor.1).exec fuel v
  let v ← (aboveLoop coor.2).exec fuel v
  (belowLoop coor.2).exec fuel v

def TargetReturns (coor : Rat × Rat) (v t : Aim) : Prop :=
  ∃ fuel, target coor fuel v = some t

theorem targetReturns_iff_exits {coor : Rat × Rat} {v t : Aim} :
    TargetReturns coor v t ↔ ∃ v₁ v₂ v₃, (leftLoop coor.1).Exits v v₁ ∧
      (rightLoop coor.1).Exits v₁ v₂ ∧ (aboveLoop coor.2).Exits v₂ v₃ ∧
      (belowLoop coor.2).Exits v₃ t := by
  constructor
  · rintro ⟨fuel, h⟩
    simp only [target, Option.bind_eq_bind, Option.bind_eq_some_iff] at h
    obtain ⟨v₁, h₁, v₂, h₂, v₃, h₃, h₄⟩ := h
    exact ⟨v₁, v₂, v₃, ⟨fuel, h₁⟩, ⟨fuel, h₂⟩, ⟨fuel, h₃⟩, ⟨fuel, h₄⟩⟩
  · rintro ⟨v₁, v₂, v₃, ⟨f₁, h₁⟩, ⟨f₂, h₂⟩, ⟨f₃, h₃⟩, ⟨f₄, h₄⟩⟩
    refine ⟨max (max f₁ f₂) (max f₃ f₄), ?_⟩
    simp only [target, Option.bind_eq_bind, Option.bind_eq_some_iff]
    exact ⟨v₁, Loop.exec_mono (by omega) h₁, v₂, Loop.exec_mono (by omega) h₂,
      v₃, Loop.exec_mono (by omega) h₃, Loop.exec_mono (by omega) h₄⟩

/-! ## When a call returns -/

theorem exits_aimLoop_iff {outside : Aim → Prop} [DecidablePred outside]
    {command : Aim → Aim} {v t : Aim} (h : ∀ u, outside (command u) ↔ outside u) :
    (aimLoop outside command).Exits v t ↔ ¬ outside v ∧ t = v := by
  have hfrozen := Loop.exits_iff_of_frozen (L := aimLoop outside command) (s := v) (t := t)
    (fun _ => rfl) fun u => decide_eq_decide.mpr (h u)
  rw [hfrozen]
  exact and_congr_left' decide_eq_false_iff_not

theorem targetReturns_iff {coor : Rat × Rat} {v t : Aim} :
    TargetReturns coor v t ↔
      (|coor.1 - v.xTarget| ≤ v.toleranceX ∧ |coor.2 - v.yTarget| ≤ v.toleranceY) ∧ t = v := by
  have hleft : ∀ u w, (leftLoop coor.1).Exits u w ↔
      u.xTarget - u.toleranceX ≤ coor.1 ∧ w = u := by
    intro u w
    rw [← not_lt]
    exact exits_aimLoop_iff fun _ => Iff.rfl
  have hright : ∀ u w, (rightLoop coor.1).Exits u w ↔
      coor.1 ≤ u.xTarget + u.toleranceX ∧ w = u := by
    intro u w
    rw [← not_lt]
    exact exits_aimLoop_iff fun _ => Iff.rfl
  have habove : ∀ u w, (aboveLoop coor.2).Exits u w ↔
      u.yTarget - u.toleranceY ≤ coor.2 ∧ w = u := by
    intro u w
    rw [← not_lt]
    exact exits_aimLoop_iff fun _ => Iff.rfl
  have hbelow : ∀ u w, (belowLoop coor.2).Exits u w ↔
      coor.2 ≤ u.yTarget + u.toleranceY ∧ w = u := by
    intro u w
    rw [← not_lt]
    exact exits_aimLoop_iff fun _ => Iff.rfl
  simp only [targetReturns_iff_exits, hleft, hright, habove, hbelow]
  rw [abs_le, abs_le]
  constructor
  · rintro ⟨_, _, _, ⟨h₁, rfl⟩, ⟨h₂, rfl⟩, ⟨h₃, rfl⟩, h₄, rfl⟩
    refine ⟨⟨⟨?_, ?_⟩, ?_, ?_⟩, rfl⟩ <;> linarith
  · rintro ⟨⟨⟨h₁, h₂⟩, h₃, h₄⟩, rfl⟩
    refine ⟨t, t, t, ⟨?_, rfl⟩, ⟨?_, rfl⟩, ⟨?_, rfl⟩, ?_, rfl⟩ <;> linarith

/-! ## Settling and symmetry -/

/-- Opposite errors out of tolerance leave opposite commands. -/
def OppositeCommands (v : Aim) (dx dy : Rat) : Prop :=
  v.toleranceX < |dx| → v.toleranceY < |dy| →
    ∃ t t', TargetReturns (v.xTarget + dx, v.yTarget + dy) v t ∧
      TargetReturns (v.xTarget - dx, v.yTarget - dy) v t' ∧
      t.motorX = -t'.motorX ∧ t.motorY = -t'.motorY

/-- A call returns, and opposite errors leave opposite commands, exactly for a
target in tolerance and errors that are not both out of it. -/
theorem target_settles_iff (v : Aim) (coor : Rat × Rat) (dx dy : Rat) :
    ((∃ t, TargetReturns coor v t) ∧ OppositeCommands v dx dy) ↔
      (|coor.1 - v.xTarget| ≤ v.toleranceX ∧ |coor.2 - v.yTarget| ≤ v.toleranceY) ∧
        (|dx| ≤ v.toleranceX ∨ |dy| ≤ v.toleranceY) := by
  have hreturns : (∃ t, TargetReturns coor v t) ↔
      |coor.1 - v.xTarget| ≤ v.toleranceX ∧ |coor.2 - v.yTarget| ≤ v.toleranceY := by
    simp [targetReturns_iff]
  have hopposite : OppositeCommands v dx dy ↔ |dx| ≤ v.toleranceX ∨ |dy| ≤ v.toleranceY := by
    constructor
    · intro h
      by_contra hboth
      rw [not_or, not_le, not_le] at hboth
      obtain ⟨t, t', ht, -⟩ := h hboth.1 hboth.2
      have hx := (targetReturns_iff.mp ht).1.1
      rw [add_sub_cancel_left] at hx
      exact absurd hx (not_le.mpr hboth.1)
    · rintro (h | h) hx hy
      · exact absurd h (not_le.mpr hx)
      · exact absurd h (not_le.mpr hy)
  rw [hreturns, hopposite]

/-- With everything at zero, a target one unit to the right keeps the call for
good. -/
theorem target_never_returns_right :
    ¬ ((∃ t, TargetReturns (1, 0) ⟨0, 0, 0, 0, 0, 0⟩ t) ∧
      OppositeCommands ⟨0, 0, 0, 0, 0, 0⟩ 1 1) := by
  rintro ⟨⟨t, ht⟩, -⟩
  have hx := (targetReturns_iff.mp ht).1.1
  norm_num at hx

/-! ## What the loops command -/

/-- In every pass the two sides are given the same command, not opposite ones. -/
theorem same_command_both_sides (v : Aim) (d : Rat) (k : ℕ) :
    ((rightLoop (v.xTarget + d)).next^[k + 1] v).motorX =
        ((leftLoop (v.xTarget - d)).next^[k + 1] v).motorX ∧
      ((belowLoop (v.yTarget + d)).next^[k + 1] v).motorY =
        ((aboveLoop (v.yTarget - d)).next^[k + 1] v).motorY := by
  have hright : (rightLoop (v.xTarget + d)).next^[k + 1] v =
      { v with motorX := 1 / 10 * (v.xTarget + d - v.xTarget) } :=
    Loop.iterate_of_idempotent (rightLoop _) (fun _ => rfl) (fun _ => rfl) v k
  have hleft : (leftLoop (v.xTarget - d)).next^[k + 1] v =
      { v with motorX := 1 / 10 * (v.xTarget - (v.xTarget - d)) } :=
    Loop.iterate_of_idempotent (leftLoop _) (fun _ => rfl) (fun _ => rfl) v k
  have hbelow : (belowLoop (v.yTarget + d)).next^[k + 1] v =
      { v with motorY := 1 / 10 * (v.yTarget + d - v.yTarget) } :=
    Loop.iterate_of_idempotent (belowLoop _) (fun _ => rfl) (fun _ => rfl) v k
  have habove : (aboveLoop (v.yTarget - d)).next^[k + 1] v =
      { v with motorY := 1 / 10 * (v.yTarget - (v.yTarget - d)) } :=
    Loop.iterate_of_idempotent (aboveLoop _) (fun _ => rfl) (fun _ => rfl) v k
  rw [hright, hleft, hbelow, habove]
  constructor <;> ring

end Sotabots.Vision
