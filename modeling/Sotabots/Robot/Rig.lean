import Sotabots.Robot.WindCycle
import Sotabots.Robot.WinchMotor
import Mathlib.Data.List.Chain
/-!
# The winch with its shaft

The loop sees the shaft of the winch only through an encoder that counts from its
last reset, and the only reset is the loop's own.  Here the loop is closed: the
inputs are shaft positions, and the count of a pass is the position less the one
at the last reset.  `rig_iterations` says that a closed run is a run of the open
loop on those counts.
-/

namespace Sotabots.Robot

open Machine

/-- The robot, and the shaft position its winch encoder counts from. -/
structure Rig where
  robot : State
  zero : Int

/-- What a pass is given: the controls, and where the shaft is.  The encoder count
among the controls is not looked at. -/
structure RigInput where
  controls : Inputs
  shaft : Int

namespace Rig

def sample (g : Rig) (x : RigInput) : Inputs :=
  { x.controls with
    winch := { x.controls.winch with winchEncoder := x.shaft - g.zero } }

def step (g : Rig) (x : RigInput) : Rig where
  robot := sampledBody g.robot (g.sample x)
  zero :=
    if Event.encoderReset .winchEncoder ∈ bodyCalls g.robot (g.sample x).reads then x.shaft
    else g.zero

def pass (it : Iteration Rig RigInput) : Iteration State Inputs :=
  ⟨it.pre.robot, it.pre.sample it.input, it.post.robot⟩

end Rig

theorem rig_iterations (g : Rig) (inputs : List RigInput) :
    (iterations Rig.step g inputs).map Rig.pass =
      iterations sampledBody g.robot
        ((iterations Rig.step g inputs).map fun it => it.pre.sample it.input) := by
  induction inputs generalizing g with
  | nil => rfl
  | cons x rest ih =>
      rw [iterations_cons, List.map_cons, ih, List.map_cons, iterations_cons]
      rfl

/-- The shaft position at the latest pull pass, or where the count was started. -/
def countedFrom (zero : Int) (history : List (Iteration Rig RigInput)) : Int :=
  ((history.reverse.find? fun it => Took .pull (Rig.pass it)).map fun it => it.input.shaft).getD
    zero

theorem countedFrom_concat (zero : Int) (history : List (Iteration Rig RigInput))
    (it : Iteration Rig RigInput) :
    countedFrom zero (history ++ [it]) =
      if Took .pull (Rig.pass it) then it.input.shaft else countedFrom zero history := by
  unfold countedFrom
  rw [List.reverse_concat, List.find?_cons]
  by_cases hpull : Took .pull (Rig.pass it) <;> simp [hpull]

theorem zero_eq_countedFrom {s : State} {zero : Int} {inputs : List RigInput}
    {before after : List (Iteration Rig RigInput)} {it : Iteration Rig RigInput}
    (hsplit : iterations Rig.step ⟨s, zero⟩ inputs = before ++ it :: after) :
    it.pre.zero = countedFrom zero before := by
  refine history_invariant_at (C := fun _ => True)
    (I := fun history (g : Rig) => g.zero = countedFrom zero history) rfl ?_ hsplit
    fun _ _ => trivial
  intro history g x hg _
  have hreset := resetsEncoder_iff (Rig.pass ⟨g, x, g.step x⟩)
  rw [countedFrom_concat, ← hg]
  by_cases hpull : Took .pull (Rig.pass ⟨g, x, g.step x⟩)
  · rw [if_pos hpull]
    exact if_pos (hreset.mpr hpull)
  · rw [if_neg hpull]
    exact if_neg fun h => hpull (hreset.mp h)

/-! ## How far the winch pays out -/

/-- A pass that leaves the wind command on the motor has read a count below 560,
unless it took the latch branch on top of that command. -/
theorem count_lt_of_wind {s : State} {i : Inputs}
    (hpost : (sampledBody s i).wenchSite = some .wind)
    (hlatch : s.wenchSite = some .wind → branchOf s i ≠ .latch) :
    i.winch.winchEncoder < windCount := by
  by_cases hwind : branchOf s i = .wind
  · exact (guard_branchOf hwind).2.1
  · have hsite : nextSite (branchOf s i) none ≠ some .wind :=
      fun h => hwind (nextSite_none_inj h rfl)
    obtain ⟨hpre, h | hhold⟩ := took_latch_or_hold hpost hsite
    · exact absurd h (hlatch hpre)
    · exact (guard_branchOf hhold).2

theorem zero_step_of_wind {g : Rig} {x : RigInput}
    (hpost : (g.step x).robot.wenchSite = some .wind) : (g.step x).zero = g.zero := by
  refine if_neg fun hreset => ?_
  have hpull : branchOf g.robot (g.sample x) = .pull :=
    (resetsEncoder_iff (Rig.pass ⟨g, x, g.step x⟩)).mp hreset
  have hsite := wenchSite_sampledBody g.robot (g.sample x)
  rw [hpull] at hsite
  have hboth : some WenchSite.pull = some .wind := hsite.symm.trans hpost
  cases hboth

/-- The shaft pays out at most `v` counts from one pass to the next. -/
def Paced (v : Int) (inputs : List RigInput) : Prop :=
  inputs.IsChain fun x y => y.shaft ≤ x.shaft + v

def RigInput.Latches (x : RigInput) : Prop :=
  x.controls.winch.button2 = true ∧ x.controls.winch.limSwitch = false

instance (x : RigInput) : Decidable x.Latches := inferInstanceAs (Decidable (_ ∧ _))

theorem latches_of_branchOf {g : Rig} {x : RigInput}
    (h : branchOf g.robot (g.sample x) = .latch) : x.Latches := by
  have hguard := guard_branchOf h
  exact ⟨hguard.2, hguard.1⟩

theorem wenchSite_teleopEntry (s : State) : (teleopEntry s).wenchSite = some .teleopEntry := by
  simp [State.wenchSite, State.wench, teleopEntry, wenchOf_cons, Event.wenchCommand]

/-- Close the loop over a shaft that pays out at most `v` counts a pass, and keep
off button 2 at the closed switch while the automatic wind runs.  Then at every
pass that finds it running, the shaft is less than `560 + v` counts from where the
latest pull pass left it, whatever else is pressed and however the switch
bounces. -/
theorem payout_bounded {s : State} {zero v : Int} {inputs : List RigInput}
    (hpace : Paced v inputs)
    (hlatch : ∀ it ∈ iterations Rig.step ⟨teleopEntry s, zero⟩ inputs,
      it.pre.robot.wenchSite = some .wind → ¬ it.input.Latches)
    {before after : List (Iteration Rig RigInput)} {it : Iteration Rig RigInput}
    (hsplit : iterations Rig.step ⟨teleopEntry s, zero⟩ inputs = before ++ it :: after)
    (hwind : it.pre.robot.wenchSite = some .wind) :
    it.input.shaft < countedFrom zero before + windCount + v := by
  rw [← zero_eq_countedFrom hsplit]
  rcases List.eq_nil_or_concat before with rfl | ⟨older, prev, rfl⟩
  · -- the entry has stopped the motor
    obtain ⟨first, x, rest, -, hnil, rfl⟩ := iterations_split hsplit
    obtain rfl : first = [] := by
      cases first with
      | nil => rfl
      | cons x rest => simp at hnil
    have hboth : some WenchSite.teleopEntry = some .wind :=
      (wenchSite_teleopEntry s).symm.trans hwind
    cases hboth
  · have hpair : iterations Rig.step ⟨teleopEntry s, zero⟩ inputs =
        older ++ prev :: it :: after := by
      simpa using hsplit
    have hprev : prev ∈ iterations Rig.step ⟨teleopEntry s, zero⟩ inputs := by simp [hpair]
    have hstart : it.pre = prev.pre.step prev.input :=
      (pre_eq_post hpair).trans (post_eq_step hprev)
    rw [hstart] at hwind ⊢
    have hcount : prev.input.shaft - prev.pre.zero < windCount :=
      count_lt_of_wind hwind fun hpre h => hlatch prev hprev hpre (latches_of_branchOf h)
    have hmove : it.input.shaft ≤ prev.input.shaft + v := by
      have hinputs := congrArg (List.map Iteration.input) hpair
      rw [map_input_iterations, List.map_append, List.map_cons, List.map_cons] at hinputs
      rw [hinputs] at hpace
      exact (List.isChain_append_cons_cons.mp hpace).2.1
    rw [zero_step_of_wind hwind]
    omega

def payoutInputs : List RigInput :=
  [⟨.ofWinch ⟨true, true, 0, false, 0⟩, 100⟩, ⟨.ofWinch ⟨true, false, 0, false, 0⟩, 100⟩,
    ⟨.ofWinch ⟨false, false, 0, false, 0⟩, 110⟩, ⟨.ofWinch ⟨false, false, 0, false, 0⟩, 390⟩]

def payoutRig : Rig := ⟨teleopEntry State.initial, 0⟩

theorem payout_bounded_670 :
    (run Rig.step payoutRig payoutInputs).robot.wenchSite = some .wind ∧
      670 < countedFrom 0 (iterations Rig.step payoutRig payoutInputs) + windCount + 280 := by
  have hwind : (run Rig.step payoutRig payoutInputs).robot.wenchSite = some .wind := by
    decide +kernel
  have hpace : Paced 280 (payoutInputs ++ [⟨.ofWinch ⟨false, false, 0, false, 0⟩, 670⟩]) := by
    simp [Paced, payoutInputs]
  have hlatch : ∀ it ∈ iterations Rig.step payoutRig
      (payoutInputs ++ [⟨.ofWinch ⟨false, false, 0, false, 0⟩, 670⟩]),
      it.pre.robot.wenchSite = some .wind → ¬ it.input.Latches := by
    decide +kernel
  exact ⟨hwind, payout_bounded hpace hlatch (iterations_concat _ _) hwind⟩

end Sotabots.Robot
