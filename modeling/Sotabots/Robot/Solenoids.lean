import Sotabots.Robot.AutonomousShot
/-!
# Solenoid pairs

Each pneumatic cylinder is worked by two solenoids, of which exactly one should
be on.  The teleoperation loop writes the intake and shifter pairs in every pass.
The lock pair is written only in some branches of the winch chain, and nothing in
`operatorControl` sets it before the loop, as `autonomous` does.
-/

namespace Sotabots.Robot

open Machine

inductive Pair
  | lock | intake | shift
  deriving DecidableEq, Repr

def Pair.first : Pair → Solenoid
  | .lock => .lock1
  | .intake => .intake1
  | .shift => .shift1

def Pair.second : Pair → Solenoid
  | .lock => .lock2
  | .intake => .intake2
  | .shift => .shift2

/-- Exactly one output of each pair is on. -/
def PairsComplementary (s : State) : Prop :=
  ∀ p : Pair, s.output p.first ≠ s.output p.second

/-! ## One pass -/

theorem output_loopBody (s : State) (r : Reads) (p : Solenoid) :
    (loopBody s r).output p = outputOf p (callsOn s r p.device ++ s.deviceLog p.device) := by
  rw [← deviceLog_loopBody, State.deviceLog, outputOf_deviceCalls]
  rfl

theorem intake_ne_loopBody (s : State) (r : Reads) :
    (loopBody s r).output .intake1 ≠ (loopBody s r).output .intake2 := by
  rw [output_loopBody, output_loopBody]
  simp [callsOn, Solenoid.device, intakeCalls, outputOf_cons, Event.solenoidValue]

theorem shift_ne_loopBody (s : State) (r : Reads) :
    (loopBody s r).output .shift1 ≠ (loopBody s r).output .shift2 := by
  rw [output_loopBody, output_loopBody]
  simp [callsOn, Solenoid.device, shiftCalls, outputOf_cons, Event.solenoidValue]

/-- The pull branch and a pass without a branch leave the lock pair alone; every
other branch writes both outputs. -/
theorem lock_ne_sampledBody_iff (s : State) (i : Inputs) :
    (sampledBody s i).output .lock1 ≠ (sampledBody s i).output .lock2 ↔
      (branchOf s i = .pull ∨ branchOf s i = .hold → s.lock1 ≠ s.lock2) := by
  have hlog : ∀ p : Solenoid, p.device = .winch →
      (sampledBody s i).output p =
        outputOf p (winchCalls (branchOf s i) i.winch.reads ++ s.deviceLog .winch) := by
    intro p hp
    rw [sampledBody, output_loopBody, hp]
    rfl
  have hold1 : outputOf .lock1 (s.deviceLog .winch) = s.lock1 := lock1_winch s
  have hold2 : outputOf .lock2 (s.deviceLog .winch) = s.lock2 := lock2_winch s
  rw [hlog .lock1 rfl, hlog .lock2 rfl]
  cases branchOf s i <;>
    simp [winchCalls, outputOf_cons, Event.solenoidValue, hold1, hold2]

theorem pairsComplementary_sampledBody_iff (s : State) (i : Inputs) :
    PairsComplementary (sampledBody s i) ↔
      (branchOf s i = .pull ∨ branchOf s i = .hold → s.lock1 ≠ s.lock2) := by
  rw [← lock_ne_sampledBody_iff]
  constructor
  · exact fun h => h .lock
  · intro h p
    cases p with
    | lock => exact h
    | intake => exact intake_ne_loopBody s i.reads
    | shift => exact shift_ne_loopBody s i.reads

/-! ## Whole periods -/

theorem output_teleopEntry (s : State) (p : Solenoid) :
    (teleopEntry s).output p = s.output p := by
  simp [teleopEntry, State.output_emit, Event.solenoidValue]

theorem pairsComplementary_of_lock {s : State} (hs : s.lock1 ≠ s.lock2) (inputs : List Inputs) :
    ∀ it ∈ iterations sampledBody s inputs, PairsComplementary it.post := by
  intro it hit
  have hpre := (invariant_of_step (I := fun s : State => s.lock1 ≠ s.lock2) hs
    (fun t i ht => (lock_ne_sampledBody_iff t i).mpr fun _ => ht) inputs it hit).1
  rw [post_eq_step hit, pairsComplementary_sampledBody_iff]
  exact fun _ => hpre

/-- The state in which teleoperation is entered after power-on: fresh, or as one
autonomous period has left it. -/
def EntersTeleop : Option Oracle → State → Prop
  | none, s => s = State.initial
  | some o, s => AutonomousReturns o State.initial s

theorem pairsComplementary_first_pass_iff (i : Inputs) :
    PairsComplementary (sampledBody (teleopEntry State.initial) i) ↔
      ¬ (i.winch.button2 = true ∧ i.winch.limSwitch = true) := by
  have hoff : (teleopEntry State.initial).lock1 = (teleopEntry State.initial).lock2 := rfl
  have hpressed : (teleopEntry State.initial).pressed = false := rfl
  have hhold : branchOf (teleopEntry State.initial) i ≠ .hold :=
    fun h => absurd (guard_branchOf h).1 (by simp [hpressed])
  rw [pairsComplementary_sampledBody_iff, branchOf_eq_pull_iff]
  simp [hoff, hhold, hpressed]

theorem lock_ne_of_autonomousReturns {o : Oracle} {s t : State} (h : AutonomousReturns o s t) :
    (teleopEntry t).lock1 ≠ (teleopEntry t).lock2 := by
  have hlock1 : (teleopEntry t).lock1 = t.lock1 := output_teleopEntry t .lock1
  have hlock2 : (teleopEntry t).lock2 = t.lock2 := output_teleopEntry t .lock2
  rw [hlock1, hlock2]
  rcases locked_or_released_of_autonomousReturns h with h | h
  · simp [h.1, h.2]
  · simp [h.1, h.2]

/-- All pairs are complementary at the end of every pass, exactly when the robot
does not start teleoperation without an autonomous period and with a pull. -/
theorem pairsComplementary_iff (first : Option Oracle) (s : State)
    (hs : EntersTeleop first s) (inputs : List Inputs) :
    (∀ it ∈ teleopTrace s inputs, PairsComplementary it.post) ↔
      (first = none → ∀ i, inputs.head? = some i →
        ¬ (i.winch.button2 = true ∧ i.winch.limSwitch = true)) := by
  cases first with
  | some o =>
      simp only [reduceCtorEq, false_implies, iff_true]
      exact pairsComplementary_of_lock (lock_ne_of_autonomousReturns hs) inputs
  | none =>
      obtain rfl : s = State.initial := hs
      cases inputs with
      | nil => simp [teleopTrace]
      | cons i rest =>
          have hfirst := pairsComplementary_first_pass_iff i
          have htrace : teleopTrace State.initial (i :: rest) =
              ⟨teleopEntry State.initial, i, sampledBody (teleopEntry State.initial) i⟩ ::
                iterations sampledBody (sampledBody (teleopEntry State.initial) i) rest := rfl
          rw [htrace, List.forall_mem_cons, hfirst]
          simp only [List.head?_cons, Option.some.injEq, forall_eq', true_implies]
          constructor
          · exact fun h => h.1
          · intro h
            exact ⟨h, pairsComplementary_of_lock (hfirst.mpr h .lock) rest⟩

theorem pairsComplementary_stick_first :
    PairsComplementary (operatorControl State.initial
      [.ofWinch ⟨false, true, 0, false, 0⟩, .ofWinch ⟨true, true, 0, false, 0⟩]) := by
  have hpairs := (pairsComplementary_iff none State.initial rfl
    [.ofWinch ⟨false, true, 0, false, 0⟩, .ofWinch ⟨true, true, 0, false, 0⟩]).mpr
    (by simp [Inputs.ofWinch])
  exact hpairs _ (List.mem_cons_of_mem _ List.mem_cons_self)

/-- Power on, no autonomous period, and button 2 first: the winch pulls with both
lock outputs off. -/
theorem not_pairsComplementary_pull_first :
    EntersTeleop none State.initial ∧
      ¬ ∀ it ∈ teleopTrace State.initial [.ofWinch ⟨true, true, 0, false, 0⟩],
        PairsComplementary it.post := by
  refine ⟨rfl, fun h => ?_⟩
  exact h _ List.mem_cons_self .lock (by decide +kernel)

end Sotabots.Robot
