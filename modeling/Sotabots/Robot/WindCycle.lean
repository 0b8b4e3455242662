import Sotabots.Robot.Winch
import Sotabots.Machine.Past
/-!
# The wind cycle

A cycle is: pull the catapult back with button 2, latch it when the limit switch
closes, and pay the winch out again over 560 counts.  Once the latch branch has
been taken and the first pass after it winds, the rest of the cycle needs no
operator and tolerates a bouncing switch and a slipping encoder.  Whether the 560
counts are counted from zero is another matter: the only reset is in the pull
branch, and the latch branch can be entered without it.
-/

namespace Sotabots.Robot

open Machine

/-! ## From the latch to the stop -/

/-- Where the cycle stands: still winding while every count since the latch has
been `below` 560, and stopped for good from the first one that was not. -/
structure WindPhase (below : Prop) (s : State) : Prop where
  locked : s.Locked
  pressed : s.pressed = true
  winding : below → s.winding = true ∧ s.wench = some (.wind, .set (4 / 5))
  stopped : ¬ below → s.winding = false ∧ s.wench = some (.windComplete, .stopMotor)

structure HandsOff (i : Inputs) : Prop where
  button2 : i.winch.button2 = false
  trigger : i.winch.trigger = false

variable {s : State} {i : Inputs} {below : Prop}

theorem branchOf_handsOff (hi : HandsOff i) (hs : s.pressed = true) :
    branchOf s i =
      if i.winch.limSwitch = false ∧ i.winch.winchEncoder < windCount ∧ s.winding = true then
        .wind
      else if windCount ≤ i.winch.winchEncoder then .windComplete
      else .hold := by
  simp [branchOf, winchBranch, WinchSample.reads, hi.button2, hi.trigger, hs]

theorem windPhase_of_wind (hb : branchOf s i = .wind) (hbelow : below) :
    WindPhase below (sampledBody s i) := by
  have hwinding : s.winding = true := (guard_branchOf hb).2.2
  constructor
  · rw [locked_sampledBody, hb]
    trivial
  · rw [pressed_sampledBody, hb]
    rfl
  · intro _
    rw [winding_sampledBody, wench_sampledBody, hb]
    exact ⟨hwinding, rfl⟩
  · exact fun h => absurd hbelow h

theorem windPhase_of_windComplete (hb : branchOf s i = .windComplete) (hbelow : ¬ below) :
    WindPhase below (sampledBody s i) := by
  have hpressed : s.pressed = true := (guard_branchOf hb).1
  constructor
  · rw [locked_sampledBody, hb]
    trivial
  · rw [pressed_sampledBody, hb]
    exact hpressed
  · exact fun h => absurd h hbelow
  · intro _
    rw [winding_sampledBody, wench_sampledBody, hb]
    exact ⟨rfl, rfl⟩

theorem WindPhase.hold (hs : WindPhase below s) (hb : branchOf s i = .hold) :
    WindPhase below (sampledBody s i) := by
  constructor
  · rw [locked_sampledBody, hb]
    exact hs.locked
  · rw [pressed_sampledBody, hb]
    exact hs.pressed
  · rw [winding_sampledBody, wench_sampledBody, hb]
    exact hs.winding
  · rw [winding_sampledBody, wench_sampledBody, hb]
    exact hs.stopped

theorem WindPhase.step (hs : WindPhase below s) (hi : HandsOff i) :
    WindPhase (below ∧ i.winch.winchEncoder < windCount) (sampledBody s i) := by
  have hbranch := branchOf_handsOff hi hs.pressed
  by_cases hcount : i.winch.winchEncoder < windCount
  · have hsame : (below ∧ i.winch.winchEncoder < windCount) = below := by simp [hcount]
    rw [hsame]
    rw [if_neg (not_le.mpr hcount)] at hbranch
    split_ifs at hbranch with hwind
    · -- a stopped cycle has `winding` clear, so only a winding one gets here
      by_cases hbelow : below
      · exact windPhase_of_wind hbranch hbelow
      · rw [(hs.stopped hbelow).1] at hwind
        simp at hwind
    · exact hs.hold hbranch
  · rw [if_neg fun h => hcount h.2.1, if_pos (not_lt.mp hcount)] at hbranch
    exact windPhase_of_windComplete hbranch fun h => hcount h.2

theorem WindPhase.run (hs : WindPhase below s) {inputs : List Inputs}
    (hoff : ∀ i ∈ inputs, HandsOff i) :
    WindPhase (below ∧ ∀ i ∈ inputs, i.winch.winchEncoder < windCount)
      (run sampledBody s inputs) := by
  -- each pass adds its own count to what `below` asks
  induction inputs generalizing s below with
  | nil => simpa using hs
  | cons i rest ih =>
      have hfirst := hs.step (hoff i List.mem_cons_self)
      have hrest := ih hfirst fun j hj => hoff j (List.mem_cons_of_mem i hj)
      simpa [and_assoc] using hrest

theorem windPhase_first {latch : Inputs} (hlatch : branchOf s latch = .latch)
    (hi : HandsOff i) (hclosed : i.winch.limSwitch = false)
    (hcount : i.winch.winchEncoder < windCount) :
    WindPhase (i.winch.winchEncoder < windCount) (sampledBody (sampledBody s latch) i) := by
  have hwinding : (sampledBody s latch).winding = true := by
    rw [winding_sampledBody, hlatch]
    rfl
  refine windPhase_of_wind ?_ hcount
  simp [branchOf, winchBranch, WinchSample.reads, hi.button2, hclosed, hcount, hwinding]

/-- The nominal cycle from any state: a latch pass and then hands-off passes, of
which the first finds the switch closed and the count below 560.  The switch may
bounce and the encoder may slip back after that. -/
theorem nominal_wind_cycle (s : State) (latch first : Inputs) (rest : List Inputs)
    (hlatch : branchOf s latch = .latch) (hoff : ∀ i ∈ first :: rest, HandsOff i)
    (hclosed : first.winch.limSwitch = false) (hcount : first.winch.winchEncoder < windCount) :
    ∀ before it after,
      iterations sampledBody (sampledBody s latch) (first :: rest) = before ++ it :: after →
        WindPhase (∀ x ∈ before ++ [it], x.input.winch.winchEncoder < windCount) it.post := by
  intro before it after hsplit
  obtain ⟨older, i, newer, hinputs, rfl, rfl⟩ := iterations_split hsplit
  have hcounts :
      (∀ x ∈ iterations sampledBody (sampledBody s latch) (older ++ [i]),
        x.input.winch.winchEncoder < windCount) ↔
      ∀ j ∈ older ++ [i], j.winch.winchEncoder < windCount :=
    forall_iterations_input (P := fun j : Inputs => j.winch.winchEncoder < windCount) _
  have hpost : run sampledBody (sampledBody s latch) (older ++ [i]) =
      sampledBody (run sampledBody (sampledBody s latch) older) i := run_concat older i
  rw [← iterations_concat, hcounts, ← hpost]
  -- the passes up to the one looked at are the first one and more of the rest
  obtain ⟨more, hmore⟩ : ∃ more, older ++ [i] = first :: more := by
    cases older <;> simp_all
  have hrest : rest = more ++ newer := by
    rw [List.append_cons, hmore] at hinputs
    exact (List.cons.inj hinputs).2
  have hfirst := windPhase_first hlatch (hoff first List.mem_cons_self) hclosed hcount
  have hmoreOff : ∀ j ∈ more, HandsOff j := fun j hj => hoff j (by simp [hrest, hj])
  have hrun := hfirst.run hmoreOff
  rw [hmore, run_cons]
  simpa using hrun

def bounceInputs : List Inputs :=
  [.ofWinch ⟨false, false, 0, false, 0⟩, .ofWinch ⟨false, true, 300, false, 1⟩,
    .ofWinch ⟨false, true, 561, false, 0⟩, .ofWinch ⟨false, false, 540, false, 0⟩]

theorem nominal_wind_cycle_bounce :
    (run sampledBody (teleopEntry State.initial)
      (.ofWinch ⟨true, false, 0, false, 0⟩ :: bounceInputs)).wench =
        some (.windComplete, .stopMotor) := by
  have hoff : ∀ i ∈ bounceInputs, HandsOff i := by
    intro i hi
    simp only [bounceInputs, List.mem_cons, List.not_mem_nil, or_false] at hi
    rcases hi with rfl | rfl | rfl | rfl <;> exact ⟨rfl, rfl⟩
  have hphase := nominal_wind_cycle (teleopEntry State.initial)
    (.ofWinch ⟨true, false, 0, false, 0⟩) _ _ (by decide +kernel) hoff rfl (by decide) _ _ []
    (iterations_concat (bounceInputs.take 3) (.ofWinch ⟨false, false, 540, false, 0⟩))
  exact (hphase.stopped (by decide +kernel)).2

/-! ## Counting from zero -/

def ResetsEncoder (it : Iteration State Inputs) : Prop :=
  Event.encoderReset .winchEncoder ∈ bodyCalls it.pre it.input.reads

theorem resetsEncoder_iff (it : Iteration State Inputs) :
    ResetsEncoder it ↔ Took .pull it := by
  unfold ResetsEncoder
  rw [mem_bodyCalls]
  change _ ∈ winchCalls (branchOf it.pre it.input) it.input.winch.reads ↔
    branchOf it.pre it.input = .pull
  cases branchOf it.pre it.input <;> simp [winchCalls]

def Zeroed (history : List (Iteration State Inputs)) : Prop :=
  Since ResetsEncoder (fun it => ¬ Took .trigger it) history

/-- Every wind pass counts from a reset made in its own cycle. -/
def WindZeroed (trace : List (Iteration State Inputs)) : Prop :=
  ∀ before it after, trace = before ++ it :: after → Took .wind it → Zeroed before

/-- The two ways to a wind request with no reset behind it: a latch pass without
one, and a trigger pass that leaves an old request standing. -/
def MakesStale (before : List (Iteration State Inputs)) (it : Iteration State Inputs) : Prop :=
  (Took .latch it ∧ ¬ Zeroed before) ∨ (Took .trigger it ∧ it.pre.winding = true)

/-- What ends a stale request: a reset, or the stop that clears `winding`. -/
def EndsStale (it : Iteration State Inputs) : Prop :=
  Took .pull it ∨ Took .windComplete it

def StalePending (history : List (Iteration State Inputs)) : Prop :=
  SinceAt MakesStale (fun it => ¬ EndsStale it) history

theorem stale_step (before : List (Iteration State Inputs)) (s : State) (i : Inputs) :
    ((sampledBody s i).winding = true ∧ ¬ Zeroed (before ++ [⟨s, i, sampledBody s i⟩])) ↔
      MakesStale before ⟨s, i, sampledBody s i⟩ ∨
        ((s.winding = true ∧ ¬ Zeroed before) ∧ ¬ EndsStale ⟨s, i, sampledBody s i⟩) := by
  unfold MakesStale EndsStale Zeroed
  rw [since_concat, resetsEncoder_iff, winding_sampledBody]
  unfold Took
  cases branchOf s i with
  | latch =>
      -- a request that was stale before the latch pass is made again by it
      simp only [nextWinding, reduceCtorEq]
      tauto
  | trigger =>
      simp only [nextWinding, reduceCtorEq]
      tauto
  | _ => simp [nextWinding]

theorem stale_iff_stalePending (inputs : List Inputs) :
    ((operatorControl State.initial inputs).winding = true ∧
        ¬ Zeroed (teleopTrace State.initial inputs)) ↔
      StalePending (teleopTrace State.initial inputs) := by
  have hstart : ((teleopEntry State.initial).winding = true ∧ ¬ Zeroed []) ↔
      SinceAt MakesStale (fun it => ¬ EndsStale it) [] :=
    iff_of_false (fun h => absurd h.1 (by decide)) sinceAt_nil
  exact flag_iff_sinceAt (fun before s => s.winding = true ∧ ¬ Zeroed before) MakesStale
    EndsStale hstart stale_step inputs

/-- The count is always taken from zero exactly on the runs that never wind on a
stale request.  The reset of the latch branch is commented out in the source, so
a latch with the switch already closed is such a request. -/
theorem windZeroed_iff (inputs : List Inputs) :
    WindZeroed (teleopTrace State.initial inputs) ↔
      ∀ before it after, teleopTrace State.initial inputs = before ++ it :: after →
        Took .wind it → ¬ StalePending before := by
  have hpass : ∀ before it after, teleopTrace State.initial inputs = before ++ it :: after →
      Took .wind it → (Zeroed before ↔ ¬ StalePending before) := by
    intro before it after hsplit hwind
    obtain ⟨first, i, rest, -, rfl, rfl⟩ := iterations_split hsplit
    have hwinding : (operatorControl State.initial first).winding = true :=
      (guard_branchOf hwind).2.2
    change Zeroed (teleopTrace State.initial first) ↔
      ¬ StalePending (teleopTrace State.initial first)
    rw [← stale_iff_stalePending first]
    simp [hwinding]
  constructor
  · intro h before it after hsplit hwind
    exact (hpass before it after hsplit hwind).mp (h before it after hsplit hwind)
  · intro h before it after hsplit hwind
    exact (hpass before it after hsplit hwind).mpr (h before it after hsplit hwind)

/-- Button 2 with the catapult already down: latch and wind, and no reset. -/
theorem not_windZeroed_latch_at_limit :
    ¬ WindZeroed (teleopTrace State.initial
      [.ofWinch ⟨true, false, 0, false, 0⟩, .ofWinch ⟨false, false, 0, false, 0⟩]) := by
  intro h
  have hzeroed := h [_] _ [] rfl (by decide +kernel)
  have hreset := (since_concat [] _).mp hzeroed
  simp only [since_nil, false_and, or_false, resetsEncoder_iff] at hreset
  exact absurd hreset (by decide +kernel)

end Sotabots.Robot
