import Sotabots.Robot.Winch
import Sotabots.Machine.Past
/-!
# The firing interlock

The catapult should not be fired before the winch has paid out.  The code has no
test for this; it relies on the wind branch standing before the trigger branch.
While `winding` is set and the limit switch is closed, a count below 560 takes
the wind branch, and `winding` is cleared only at a count of 560 or more.  With
the limit switch open the wind branch is skipped and nothing guards the trigger.
-/

namespace Sotabots.Robot

open Machine

def PaidOut (stretch : List (Iteration State Inputs)) : Prop :=
  ∃ x ∈ stretch, windCount ≤ x.input.winch.winchEncoder

/-- Every trigger pass on a latched catapult comes when the count has reached 560
at some pass from the most recent latch pass up to itself. -/
def FiredPaidOut (trace : List (Iteration State Inputs)) : Prop :=
  ∀ before it after, trace = before ++ it :: after →
    Took .trigger it → it.pre.latched = .latched →
      SinceLatest (Took .latch) (fun stretch => PaidOut (stretch ++ [it])) before

theorem PaidOut.concat {stretch : List (Iteration State Inputs)} (h : PaidOut stretch)
    (it : Iteration State Inputs) : PaidOut (stretch ++ [it]) := by
  obtain ⟨x, hx, hcount⟩ := h
  exact ⟨x, List.mem_append_left _ hx, hcount⟩

/-- While `latched` is set there is a latch pass to look back to, and `winding`
can only have been cleared since by a pass that read 560 or more. -/
def WindTracked (before : List (Iteration State Inputs)) (s : State) : Prop :=
  s.latched = .latched →
    SinceLatest (Took .latch) (fun stretch => s.winding = true ∨ PaidOut stretch) before

theorem windTracked_step {before : List (Iteration State Inputs)} {s : State} (i : Inputs)
    (hs : WindTracked before s) :
    WindTracked (before ++ [⟨s, i, sampledBody s i⟩]) (sampledBody s i) := by
  intro hlatched
  rw [latched_sampledBody] at hlatched
  rw [winding_sampledBody]
  have hkeep : ∀ b, branchOf s i = b → b ≠ .latch → nextLatched b s.latched = s.latched →
      nextWinding b s.winding = s.winding →
      SinceLatest (Took .latch) (fun stretch => nextWinding b s.winding = true ∨ PaidOut stretch)
        (before ++ [⟨s, i, sampledBody s i⟩]) := by
    intro b hb hne hl hw
    rw [hb, hl] at hlatched
    rw [hw]
    refine (hs hlatched).concat (fun h => hne (hb.symm.trans h)) ?_
    rintro stretch (hwinding | hpaid)
    · exact Or.inl hwinding
    · exact Or.inr (hpaid.concat _)
  cases hb : branchOf s i with
  | latch => exact sinceLatest_concat_self before hb (Or.inl rfl)
  | trigger => simp [hb, nextLatched] at hlatched
  | windComplete =>
      rw [hb] at hlatched
      have hcount : windCount ≤ i.winch.winchEncoder := (guard_branchOf hb).2
      refine (hs hlatched).concat (fun h => by simp [Took, hb] at h) ?_
      intro stretch _
      exact Or.inr ⟨_, List.mem_append_right _ (List.mem_singleton_self _), hcount⟩
  | pull => exact hkeep _ hb (by decide) rfl rfl
  | wind => exact hkeep _ hb (by decide) rfl rfl
  | manual => exact hkeep _ hb (by decide) rfl rfl
  | hold => exact hkeep _ hb (by decide) rfl rfl

/-- The interlock holds on every run on which no trigger pass comes with the limit
switch open in the middle of winding: latched, `winding` set, count below 560. -/
theorem firedPaidOut_of_no_open_trigger (inputs : List Inputs)
    (hopen : ∀ it ∈ teleopTrace State.initial inputs,
      Took .trigger it → it.pre.latched = .latched → it.pre.winding = true →
        it.input.winch.limSwitch = true → windCount ≤ it.input.winch.winchEncoder) :
    FiredPaidOut (teleopTrace State.initial inputs) := by
  intro before it after hsplit htrigger hlatched
  have hmem : it ∈ teleopTrace State.initial inputs := by simp [hsplit]
  have htracked : WindTracked before it.pre :=
    history_invariant_at (C := fun _ => True) (fun h => absurd h (by decide))
      (fun _ _ i hs _ => windTracked_step i hs) hsplit (fun _ _ => trivial)
  refine (htracked hlatched).mono ?_
  rintro stretch (hwinding | hpaid)
  · refine ⟨it, List.mem_append_right _ (List.mem_singleton_self it), ?_⟩
    cases hlim : it.input.winch.limSwitch with
    | true => exact hopen it hmem htrigger hlatched hwinding hlim
    | false =>
        -- the wind test failed on this pass, and only the count can have failed it
        by_contra hcount
        exact (guard_branchOf htrigger).2 ⟨hlim, lt_of_not_ge hcount, hwinding⟩
  · exact hpaid.concat it

theorem firedPaidOut_completeShot :
    FiredPaidOut (teleopTrace State.initial
      [.ofWinch ⟨true, false, 0, false, 0⟩, .ofWinch ⟨false, false, 0, false, 0⟩,
        .ofWinch ⟨false, false, 600, false, 0⟩, .ofWinch ⟨false, false, 600, true, 0⟩]) :=
  firedPaidOut_of_no_open_trigger _ (by decide +kernel)

/-- Latch, then fire with the limit switch open: nothing has been paid out. -/
theorem not_firedPaidOut_bounce :
    ¬ FiredPaidOut (teleopTrace State.initial
      [.ofWinch ⟨true, false, 0, false, 0⟩, .ofWinch ⟨false, true, 0, true, 0⟩]) := by
  intro h
  obtain ⟨older, x, newer, hxs, -, -, y, hy, hcount⟩ :=
    h [_] _ [] rfl (by decide +kernel) (by decide +kernel)
  have hcounts : ∀ y ∈ teleopTrace State.initial
      [.ofWinch ⟨true, false, 0, false, 0⟩, .ofWinch ⟨false, true, 0, true, 0⟩],
      y.input.winch.winchEncoder < windCount := by
    decide +kernel
  refine absurd hcount (not_le.mpr (hcounts y ?_))
  rcases List.mem_append.mp hy with hy | hy
  · have hfirst : y ∈ older ++ x :: newer := List.mem_append_right _ hy
    rw [← hxs] at hfirst
    exact List.mem_append_left [_] hfirst
  · exact List.mem_append_right [_] hy

end Sotabots.Robot
