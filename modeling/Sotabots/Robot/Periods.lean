import Sotabots.Robot.Latch
import Sotabots.Robot.Autonomous
import Mathlib.Algebra.Order.Field.Basic
import Mathlib.Tactic.Linarith
import Mathlib.Tactic.Positivity
/-!
# Sequences of periods

The field management system enables the robot for one period after another, and
the fields of `Robot` carry over from each to the next.  `autonomous` works the
same lock as the teleoperation loop but none of the loop's fields, so a release
by `autonomous` leaves them as the periods before it did.
-/

namespace Sotabots.Robot

open Machine Network

/-! ## `autonomous` and the fields of the loop -/

def State.flags (s : State) : Bool × Bool × Latch := (s.pressed, s.winding, s.latched)

@[simp] theorem State.flags_emit (s : State) (e : Event) : (s.emit e).flags = s.flags := rfl

theorem flags_autonomousEntry (s : State) : (autonomousEntry s).robot.flags = s.flags := by
  simp [autonomousEntry, State.flags]

theorem flags_of_autonomousReturns {o : Oracle} {s t : State} (h : AutonomousReturns o s t) :
    t.flags = s.flags := by
  obtain ⟨waited, driven, settled, shot, hwait, hdrive, hsettle, hshoot, rfl⟩ :=
    autonomousReturns_iff.mp h
  have hwaited : waited.robot.flags = s.flags := by
    rw [← flags_autonomousEntry s]
    apply hwait.frame (f := fun a => a.robot.flags) <;> intro u <;> simp [waitLoop]
  have hshown : (showDetected o waited).robot.flags = waited.robot.flags :=
    showDetected_frame (f := fun a => a.robot.flags) (by simp)
  have hdriven : driven.robot.flags = waited.robot.flags := by
    rw [← hshown]
    apply hdrive.frame (f := fun a => a.robot.flags) <;> intro u <;> simp [driveLoop]
  have hsettled : settled.robot.flags = driven.robot.flags := by
    apply hsettle.frame (f := fun a => a.robot.flags) <;> intro u <;> simp [settleLoop]
  have hshot : shot.robot.flags = settled.robot.flags := by
    apply hshoot.frame (f := fun a => a.robot.flags) <;> intro u
    · simp only [shootLoop]
      split_ifs <;> simp
    · simp [shootLoop]
  calc (shot.arcadeDrive 0 0).robot.flags = shot.robot.flags := by simp
    _ = settled.robot.flags := hshot
    _ = driven.robot.flags := hsettled
    _ = waited.robot.flags := hdriven
    _ = s.flags := hwaited

/-! ## Sessions -/

inductive Period
  | autonomous (o : Oracle)
  | operatorControl (inputs : List Inputs)

structure PeriodRun where
  period : Period
  entered : State
  left : State

def PeriodRun.Valid (p : PeriodRun) : Prop :=
  match p.period with
  | .autonomous o => AutonomousReturns o p.entered p.left
  | .operatorControl inputs => p.left = operatorControl p.entered inputs

/-- Periods one after another, each entered as the one before was left. -/
def Session : State → List PeriodRun → Prop
  | _, [] => True
  | s, p :: rest => p.entered = s ∧ p.Valid ∧ Session p.left rest

theorem Session.valid {earlier later : List PeriodRun} {p : PeriodRun} {s : State}
    (h : Session s (earlier ++ p :: later)) : p.Valid := by
  induction earlier generalizing s with
  | nil => exact h.2.1
  | cons q earlier ih => exact ih h.2.2

def PeriodRun.passes (p : PeriodRun) : List (Iteration State Inputs) :=
  match p.period with
  | .autonomous _ => []
  | .operatorControl inputs => teleopTrace p.entered inputs

def PeriodRun.AutonomousRelease (p : PeriodRun) : Prop :=
  (∃ o, p.period = .autonomous o) ∧ p.left.Released

/-- What a flag of the winch chain is to the rest of the program: one branch sets
it, one clears it, and nothing outside the loop touches it. -/
structure ChainFlag (flag : State → Prop) (set clear : WinchBranch) : Prop where
  initial : ¬ flag State.initial
  pass : ∀ s i, flag (sampledBody s i) ↔
    branchOf s i = set ∨ (flag s ∧ ¬ branchOf s i = clear)
  outside : ∀ {s t : State}, t.flags = s.flags → (flag t ↔ flag s)

theorem chainFlag_latched : ChainFlag (fun s => s.latched = .latched) .latch .trigger where
  initial := by decide
  pass := latched_sampledBody_iff
  outside h := by
    simp only [State.flags, Prod.mk.injEq] at h
    rw [h.2.2]

theorem chainFlag_winding : ChainFlag (fun s => s.winding = true) .latch .windComplete where
  initial := by decide
  pass s i := by
    rw [winding_sampledBody]
    cases branchOf s i <;> simp [nextWinding]
  outside h := by
    simp only [State.flags, Prod.mk.injEq] at h
    rw [h.2.1]

theorem chainFlag_pressed : ChainFlag (fun s => s.pressed = true) .wind .trigger where
  initial := by decide
  pass s i := by
    rw [pressed_sampledBody]
    cases branchOf s i <;> simp [nextPressed]
  outside h := by
    simp only [State.flags, Prod.mk.injEq] at h
    rw [h.1]

theorem ChainFlag.left_iff {flag : State → Prop} {set clear : WinchBranch}
    (h : ChainFlag flag set clear) {p : PeriodRun} (hvalid : p.Valid)
    {past : List (Iteration State Inputs)}
    (hpast : flag p.entered ↔ Since (Took set) (fun it => ¬ Took clear it) past) :
    flag p.left ↔ Since (Took set) (fun it => ¬ Took clear it) (past ++ p.passes) := by
  obtain ⟨period, entered, left⟩ := p
  cases period with
  | autonomous o =>
      have hflags : left.flags = entered.flags := flags_of_autonomousReturns hvalid
      simpa [PeriodRun.passes] using (h.outside hflags).trans hpast
  | operatorControl inputs =>
      have hleft : left = operatorControl entered inputs := hvalid
      rw [hleft]
      apply flag_iff_since flag (Took set) (Took clear) _ h.pass
      rw [h.outside (s := entered) (by simp [teleopEntry])]
      exact hpast

theorem ChainFlag.entered_iff {flag : State → Prop} {set clear : WinchBranch}
    (h : ChainFlag flag set clear) {earlier later : List PeriodRun} {p : PeriodRun}
    (hsession : Session State.initial (earlier ++ p :: later)) :
    flag p.entered ↔
      Since (Took set) (fun it => ¬ Took clear it) (earlier.flatMap PeriodRun.passes) := by
  -- generalise to a session that starts after `past`
  have hgeneral : ∀ (s : State) (past : List (Iteration State Inputs)),
      Session s (earlier ++ p :: later) →
      (flag s ↔ Since (Took set) (fun it => ¬ Took clear it) past) →
      (flag p.entered ↔ Since (Took set) (fun it => ¬ Took clear it)
        (past ++ earlier.flatMap PeriodRun.passes)) := by
    clear hsession
    induction earlier with
    | nil =>
        intro s past hs hpast
        have hentered : p.entered = s := hs.1
        simpa [hentered] using hpast
    | cons q earlier ih =>
        intro s past hs hpast
        obtain ⟨hentered, hvalid, hrest⟩ := hs
        rw [← hentered] at hpast
        have hleft := ih q.left (past ++ q.passes) hrest (h.left_iff hvalid hpast)
        simpa using hleft
  have hstart : flag State.initial ↔ Since (Took set) (fun it => ¬ Took clear it) [] := by
    simpa using h.initial
  simpa using hgeneral State.initial [] hsession hstart

/-! ## Release by `autonomous` -/

def State.ShotOver (s : State) : Prop :=
  s.pressed = false ∧ s.winding = false ∧ s.latched = .unlatched

instance (s : State) : Decidable s.ShotOver := inferInstanceAs (Decidable (_ ∧ _ ∧ _))

/-- No latch pass is waiting for its trigger pass or for the end of its wind, and
no wind pass for the trigger pass. -/
structure NothingPending (history : List (Iteration State Inputs)) : Prop where
  latch : ¬ LatchPending history
  payout : ¬ Since (Took .latch) (fun it => ¬ Took .windComplete it) history
  wind : ¬ Since (Took .wind) (fun it => ¬ Took .trigger it) history

theorem shotOver_iff_flags (s : State) : s.ShotOver ↔ s.flags = (false, false, .unlatched) := by
  simp [State.ShotOver, State.flags]

theorem shotOver_entered_iff {earlier later : List PeriodRun} {p : PeriodRun}
    (hsession : Session State.initial (earlier ++ p :: later)) :
    p.entered.ShotOver ↔ NothingPending (earlier.flatMap PeriodRun.passes) := by
  have hlatched := chainFlag_latched.entered_iff hsession
  have hwinding := chainFlag_winding.entered_iff hsession
  have hpressed := chainFlag_pressed.entered_iff hsession
  have hunlatched : p.entered.latched = .unlatched ↔ ¬ p.entered.latched = .latched := by
    cases p.entered.latched <;> simp
  unfold State.ShotOver
  rw [hunlatched, ← Bool.not_eq_true, ← Bool.not_eq_true, hlatched, hwinding, hpressed]
  constructor
  · intro h
    exact ⟨h.2.2, h.2.1, h.1⟩
  · intro h
    exact ⟨h.wind, h.payout, h.latch⟩

/-- In a session, `autonomous` leaves the loop's fields as a completed shot would
whenever it releases the lock, exactly when each such call comes at a time when
the teleoperation passes so far have left nothing pending. -/
theorem autonomousRelease_shotOver_iff {session : List PeriodRun}
    (hsession : Session State.initial session) :
    (∀ p ∈ session, p.AutonomousRelease → p.left.ShotOver) ↔
      ∀ earlier p later, session = earlier ++ p :: later → p.AutonomousRelease →
        NothingPending (earlier.flatMap PeriodRun.passes) := by
  have hperiod : ∀ earlier p later, session = earlier ++ p :: later → p.AutonomousRelease →
      (p.left.ShotOver ↔ NothingPending (earlier.flatMap PeriodRun.passes)) := by
    intro earlier p later hsplit hrelease
    rw [hsplit] at hsession
    obtain ⟨o, ho⟩ := hrelease.1
    have hreturns : AutonomousReturns o p.entered p.left := by
      have hvalid := hsession.valid
      rwa [PeriodRun.Valid, ho] at hvalid
    rw [← shotOver_entered_iff hsession, shotOver_iff_flags, shotOver_iff_flags,
      flags_of_autonomousReturns hreturns]
  constructor
  · intro h earlier p later hsplit hrelease
    exact (hperiod earlier p later hsplit hrelease).mp (h p (by simp [hsplit]) hrelease)
  · intro h p hp hrelease
    obtain ⟨earlier, later, hsplit⟩ := List.append_of_mem hp
    exact (hperiod earlier p later hsplit hrelease).mpr (h earlier p later hsplit hrelease)

/-- A clock that reads a twentieth of a second more each time it is asked, and a
drive encoder at the mark. -/
def tickOracle : Oracle where
  time :=
    { reading := fun _ n => n / 20
      nonneg := fun _ n => by positivity
      mono := fun _ m n h => by
        show (m : Rat) / 20 ≤ n / 20
        have hcast : (m : Rat) ≤ n := Nat.cast_le.mpr h
        linarith }
  drive _ := -3400
  mode _ := true
  link := send (.int 1)

def afterTicks (s : State) : State := (autonomous tickOracle 40 s).getD s

def wholeShot : List Inputs :=
  [.ofWinch ⟨true, false, 0, false, 0⟩, .ofWinch ⟨false, false, 0, false, 0⟩,
    .ofWinch ⟨false, false, 600, false, 0⟩, .ofWinch ⟨false, false, 600, true, 0⟩]

def shotRobot : State := operatorControl State.initial wholeShot

def shotPeriod : PeriodRun := ⟨.operatorControl wholeShot, State.initial, shotRobot⟩

def releasePeriod : PeriodRun := ⟨.autonomous tickOracle, shotRobot, afterTicks shotRobot⟩

def latchedRobot : State :=
  operatorControl State.initial [.ofWinch ⟨true, false, 0, false, 0⟩]

def latchedSession : List PeriodRun :=
  [⟨.operatorControl [.ofWinch ⟨true, false, 0, false, 0⟩], State.initial, latchedRobot⟩,
    ⟨.autonomous tickOracle, latchedRobot, afterTicks latchedRobot⟩]

theorem autonomousReturns_afterTicks {s : State}
    (h : (autonomous tickOracle 40 s).isSome = true) :
    AutonomousReturns tickOracle s (afterTicks s) := by
  refine ⟨40, ?_⟩
  obtain ⟨t, ht⟩ := Option.isSome_iff_exists.mp h
  rw [afterTicks, ht]
  rfl

theorem pair_eq_append {a b p : PeriodRun} {earlier later : List PeriodRun}
    (h : [a, b] = earlier ++ p :: later) : p = a ∨ p = b ∧ earlier = [a] := by
  rcases earlier with _ | ⟨q, _ | ⟨r, rest⟩⟩ <;> simp_all

theorem autonomousRelease_shotOver_afterShot :
    Session State.initial [shotPeriod, releasePeriod] ∧
      (∃ it ∈ shotPeriod.passes, Took .trigger it) ∧
      releasePeriod.left.Released ∧ releasePeriod.left.ShotOver := by
  have hsession : Session State.initial [shotPeriod, releasePeriod] :=
    ⟨rfl, rfl, rfl, autonomousReturns_afterTicks (by decide +kernel), trivial⟩
  have hreleased : releasePeriod.left.Released := by decide +kernel
  refine ⟨hsession, by decide +kernel, hreleased, ?_⟩
  refine (autonomousRelease_shotOver_iff hsession).mpr ?_ releasePeriod
    (List.mem_cons_of_mem _ List.mem_cons_self) ⟨⟨tickOracle, rfl⟩, hreleased⟩
  intro earlier p later hsplit hrelease
  rcases pair_eq_append hsplit with hp | ⟨hp, hearlier⟩
  · obtain ⟨o, ho⟩ := hrelease.1
    rw [hp] at ho
    cases ho
  · rw [hearlier]
    have hlater : Session State.initial ([shotPeriod] ++ releasePeriod :: []) := hsession
    exact (shotOver_entered_iff hlater).mp (by decide +kernel)

/-- Teleoperation is interrupted right after the latch pass, and `autonomous`
releases the lock: `latched` and `winding` stay set. -/
theorem not_autonomousRelease_shotOver_latched :
    Session State.initial latchedSession ∧
      ¬ ∀ p ∈ latchedSession, p.AutonomousRelease → p.left.ShotOver := by
  constructor
  · exact ⟨rfl, rfl, rfl, autonomousReturns_afterTicks (by decide +kernel), trivial⟩
  · intro h
    have hreleased : (afterTicks latchedRobot).Released := by decide +kernel
    have hover : (afterTicks latchedRobot).ShotOver :=
      h ⟨.autonomous tickOracle, latchedRobot, afterTicks latchedRobot⟩
        (List.mem_cons_of_mem _ List.mem_cons_self) ⟨⟨tickOracle, rfl⟩, hreleased⟩
    revert hover
    decide +kernel

end Sotabots.Robot
