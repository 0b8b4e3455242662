import Sotabots.Robot.Sessions
import Sotabots.Robot.Solenoids
/-!
# Shifter and intake from the buttons

The shifter and the intake keep their positions between passes and between
periods.  Where they stand is decided by the latest button that had an effect:
the four buttons are one chain, so the intake buttons do nothing while a shifter
button is held, and `autonomous` puts the intake down.
-/

namespace Sotabots.Robot

open Machine

/-! ## Flags over sessions -/

/-- What can happen to the robot: a pass of the loop, or a call of `autonomous`. -/
inductive Happening
  | pass (it : Iteration State Inputs)
  | autonomous

def PeriodRun.happenings (p : PeriodRun) : List Happening :=
  match p.period with
  | .autonomous _ => [.autonomous]
  | .operatorControl _ => p.passes.map .pass

/-- A flag that some happenings set and others clear. -/
structure SessionFlag (flag : State → Prop) (set clear : Happening → Prop) : Prop where
  initial : ¬ flag State.initial
  entry : ∀ s, flag (teleopEntry s) ↔ flag s
  pass : ∀ s i, flag (sampledBody s i) ↔
    set (.pass ⟨s, i, sampledBody s i⟩) ∨ (flag s ∧ ¬ clear (.pass ⟨s, i, sampledBody s i⟩))
  autonomous : ∀ {o s t}, AutonomousReturns o s t →
    (flag t ↔ set .autonomous ∨ (flag s ∧ ¬ clear .autonomous))

namespace SessionFlag

variable {flag : State → Prop} {set clear : Happening → Prop}

theorem run_iff (h : SessionFlag flag set clear) {s : State} {past : List Happening}
    (hpast : flag s ↔ Since set (fun e => ¬ clear e) past) (inputs : List Inputs) :
    flag (run sampledBody s inputs) ↔ Since set (fun e => ¬ clear e)
      (past ++ (iterations sampledBody s inputs).map .pass) := by
  induction inputs using List.reverseRecOn with
  | nil => simpa using hpast
  | append_singleton inputs i ih =>
      rw [run_concat, iterations_concat, List.map_append, ← List.append_assoc]
      rw [List.map_singleton, since_concat, h.pass, ih]

theorem left_iff (h : SessionFlag flag set clear) {p : PeriodRun} (hvalid : p.Valid)
    {past : List Happening}
    (hpast : flag p.entered ↔ Since set (fun e => ¬ clear e) past) :
    flag p.left ↔ Since set (fun e => ¬ clear e) (past ++ p.happenings) := by
  obtain ⟨period, entered, left⟩ := p
  cases period with
  | autonomous o =>
      change flag left ↔ Since set (fun e => ¬ clear e) (past ++ [.autonomous])
      rw [since_concat, h.autonomous hvalid]
      exact or_congr_right (and_congr_left fun _ => hpast)
  | operatorControl inputs =>
      have hleft : left = operatorControl entered inputs := hvalid
      rw [hleft]
      exact h.run_iff ((h.entry entered).trans hpast) inputs

theorem entered_iff (h : SessionFlag flag set clear) {earlier later : List PeriodRun}
    {p : PeriodRun} (hsession : Session State.initial (earlier ++ p :: later)) :
    flag p.entered ↔
      Since set (fun e => ¬ clear e) (earlier.flatMap PeriodRun.happenings) := by
  have hgeneral : ∀ (s : State) (past : List Happening), Session s (earlier ++ p :: later) →
      (flag s ↔ Since set (fun e => ¬ clear e) past) →
      (flag p.entered ↔ Since set (fun e => ¬ clear e)
        (past ++ earlier.flatMap PeriodRun.happenings)) := by
    clear hsession
    induction earlier with
    | nil =>
        intro s past hs hpast
        have hentered : p.entered = s := hs.1
        simpa [hentered] using hpast
    | cons q earlier ih =>
        intro s past hs hpast
        obtain ⟨hentered, hvalid, hrest⟩ := hs
        rw [← hentered] at hpast
        have hleft := ih q.left (past ++ q.happenings) hrest (h.left_iff hvalid hpast)
        simpa using hleft
  have hstart : flag State.initial ↔ Since set (fun e => ¬ clear e) [] := by
    simpa using h.initial
  simpa using hgeneral State.initial [] hsession hstart

theorem post_iff (h : SessionFlag flag set clear) {earlier later : List PeriodRun}
    {p : PeriodRun} (hsession : Session State.initial (earlier ++ p :: later))
    {before after : List (Iteration State Inputs)} {it : Iteration State Inputs}
    (hsplit : p.passes = before ++ it :: after) :
    flag it.post ↔ Since set (fun e => ¬ clear e)
      (earlier.flatMap PeriodRun.happenings ++ (before ++ [it]).map .pass) := by
  have hentered := h.entered_iff hsession
  obtain ⟨period, entered, left⟩ := p
  cases period with
  | autonomous o => simp [PeriodRun.passes] at hsplit
  | operatorControl inputs =>
      obtain ⟨first, i, rest, -, rfl, rfl⟩ := iterations_split hsplit
      have hrun := h.run_iff ((h.entry entered).trans hentered) (first ++ [i])
      rwa [run_concat, iterations_concat] at hrun

end SessionFlag

/-! ## The two positions -/

def Happening.ShiftsUp : Happening → Prop
  | .pass it => it.input.left3 = true
  | .autonomous => False

def Happening.ShiftsDown : Happening → Prop
  | .pass it => it.input.left3 = false ∧ it.input.left4 = true
  | .autonomous => False

/-- The intake buttons are only asked with both shifter buttons up, and button 5
wins over button 6. -/
def Happening.RaisesIntake : Happening → Prop
  | .pass it => it.input.left3 = false ∧ it.input.left4 = false ∧ it.input.left5 = true
  | .autonomous => False

def Happening.LowersIntake : Happening → Prop
  | .pass it => it.input.left3 = false ∧ it.input.left4 = false ∧ it.input.left5 = false ∧
      it.input.left6 = true
  | .autonomous => True

theorem shifted_sampledBody (s : State) (i : Inputs) :
    (sampledBody s i).shifted = nextShifted s.shifted i.left3 i.left4 := by
  rw [sampledBody, loopBody_eq]
  rfl

theorem intakeDown_sampledBody (s : State) (i : Inputs) :
    (sampledBody s i).intakeDown =
      nextIntakeDown s.intakeDown i.left3 i.left4 i.left5 i.left6 := by
  rw [sampledBody, loopBody_eq]
  rfl

theorem sessionFlag_shifted :
    SessionFlag (fun s => s.shifted = true) Happening.ShiftsUp Happening.ShiftsDown where
  initial := by simp [State.initial]
  entry s := by simp [teleopEntry]
  pass s i := by
    rw [shifted_sampledBody]
    simp only [nextShifted, Happening.ShiftsUp, Happening.ShiftsDown]
    cases i.left3 <;> cases i.left4 <;> simp
  autonomous h := by
    rw [fields_of_autonomousReturns h]
    simp [Happening.ShiftsUp, Happening.ShiftsDown]

theorem sessionFlag_intakeUp :
    SessionFlag (fun s => s.intakeDown = false) Happening.RaisesIntake
      Happening.LowersIntake where
  initial := by simp [State.initial]
  entry s := by simp [teleopEntry]
  pass s i := by
    rw [intakeDown_sampledBody]
    simp only [nextIntakeDown, Happening.RaisesIntake, Happening.LowersIntake]
    cases i.left3 <;> cases i.left4 <;> cases i.left5 <;> cases i.left6 <;> simp
  autonomous h := by
    rw [fields_of_autonomousReturns h]
    simp [Happening.RaisesIntake, Happening.LowersIntake]

theorem shift1_sampledBody (s : State) (i : Inputs) :
    (sampledBody s i).output .shift1 = (sampledBody s i).shifted := by
  rw [shifted_sampledBody, sampledBody, output_loopBody]
  simp [callsOn, Solenoid.device, shiftCalls, outputOf_cons, Event.solenoidValue, Inputs.reads]

theorem intake1_sampledBody (s : State) (i : Inputs) :
    (sampledBody s i).output .intake1 = (sampledBody s i).intakeDown := by
  rw [intakeDown_sampledBody, sampledBody, output_loopBody]
  simp [callsOn, Solenoid.device, intakeCalls, outputOf_cons, Event.solenoidValue, Inputs.reads]

/-- At the end of every pass of every session, `shift_1` is on exactly when the
latest shifter button was 3, and `intake_1` is off exactly when button 5 has
raised the intake, with no shifter button held, and neither button 6 nor
`autonomous` has lowered it since. -/
theorem positions_from_buttons {earlier later : List PeriodRun} {p : PeriodRun}
    (hsession : Session State.initial (earlier ++ p :: later))
    {before after : List (Iteration State Inputs)} {it : Iteration State Inputs}
    (hsplit : p.passes = before ++ it :: after) :
    (it.post.output .shift1 = true ↔ Since Happening.ShiftsUp (fun e => ¬ e.ShiftsDown)
      (earlier.flatMap PeriodRun.happenings ++ (before ++ [it]).map .pass)) ∧
    (it.post.output .intake1 = false ↔ Since Happening.RaisesIntake (fun e => ¬ e.LowersIntake)
      (earlier.flatMap PeriodRun.happenings ++ (before ++ [it]).map .pass)) := by
  have hpost : it.post = sampledBody it.pre it.input := by
    rw [mk_of_mem_passes (show it ∈ p.passes by simp [hsplit])]
  have hshift := sessionFlag_shifted.post_iff hsession hsplit
  have hintake := sessionFlag_intakeUp.post_iff hsession hsplit
  rw [hpost] at hshift hintake ⊢
  rw [shift1_sampledBody, intake1_sampledBody]
  exact ⟨hshift, hintake⟩

def buttons (three five : Bool) : Inputs :=
  { Inputs.ofWinch ⟨false, true, 0, false, 0⟩ with left3 := three, left5 := five }

def raised : State := operatorControl State.initial [buttons false true, buttons true false]

def raisedPeriod : PeriodRun :=
  ⟨.operatorControl [buttons false true, buttons true false], State.initial, raised⟩

def betweenPeriod : PeriodRun := ⟨.autonomous tickOracle, raised, afterTicks raised⟩

def lastPeriod : PeriodRun :=
  ⟨.operatorControl [buttons false false, buttons true true], afterTicks raised,
    operatorControl (afterTicks raised) [buttons false false, buttons true true]⟩

/-- The shifter keeps its position through `autonomous`; the intake is lowered there,
and button 5 does not raise it while button 3 is held. -/
theorem positions_from_buttons_threePeriods :
    ∃ first last, lastPeriod.passes = [first, last] ∧
      (first.post.output .shift1 = true ∧
        Since Happening.ShiftsUp (fun e => ¬ e.ShiftsDown)
          ([raisedPeriod, betweenPeriod].flatMap PeriodRun.happenings ++
            ([] ++ [first]).map .pass)) ∧
      (last.post.output .intake1 = true ∧
        ¬ Since Happening.RaisesIntake (fun e => ¬ e.LowersIntake)
          ([raisedPeriod, betweenPeriod].flatMap PeriodRun.happenings ++
            ([first] ++ [last]).map .pass)) := by
  have hsession : Session State.initial ([raisedPeriod, betweenPeriod] ++ lastPeriod :: []) :=
    ⟨rfl, rfl, rfl, autonomousReturns_afterTicks (by decide +kernel), rfl, rfl, trivial⟩
  have hfirst : lastPeriod.passes = [] ++ _ :: [_] := rfl
  have hlast : lastPeriod.passes = [_] ++ _ :: [] := rfl
  obtain ⟨hshift, -⟩ := positions_from_buttons hsession hfirst
  obtain ⟨-, hintake⟩ := positions_from_buttons hsession hlast
  refine ⟨_, _, hlast, ?_, ?_⟩
  · rw [← hshift]
    decide +kernel
  · rw [← hintake]
    decide +kernel

end Sotabots.Robot
