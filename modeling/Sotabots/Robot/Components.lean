import Sotabots.Robot.Teleop
/-!
# The loop body as separate mechanisms

The loop body interleaves five mechanisms: LED modes, intake position, shifter,
intake motor, and winch with lock.  Each section of the body is put here in a
normal form: the fields it changes, as a function of those fields and the reads,
and the calls it makes.  `loopBody_eq` collects the sections.  A mechanism's
field updates and calls can then be read off without unfolding the body.
-/

namespace Sotabots.Robot

open Java

/-! ## Which mechanism a call belongs to -/

inductive Device
  | compressor | dashboard | console | clock | drive
  | leds | intakePosition | shifter | intakeMotor | winch
  deriving DecidableEq, Repr

def Solenoid.device : Solenoid → Device
  | .intake1 | .intake2 => .intakePosition
  | .shift1 | .shift2 => .shifter
  | .lock1 | .lock2 => .winch

def Encoder.device : Encoder → Device
  | .winchEncoder => .winch
  | .drive1 => .drive

def Event.device : Event → Device
  | .compressorStart => .compressor
  | .encoderStart e => e.device
  | .encoderReset e => e.device
  | .solenoid p _ => p.device
  | .wench _ _ => .winch
  | .intakeMotor _ => .intakeMotor
  | .mode _ _ => .leds
  | .setSafetyEnabled _ => .drive
  | .arcadeDrive _ => .drive
  | .timerReset => .clock
  | .timerStart => .clock
  | .timerGet _ => .clock
  | .delay _ => .clock
  | .putString _ _ => .dashboard
  | .putNumber _ _ => .dashboard
  | .println _ => .console
  | .printLine _ => .console

def deviceCalls (d : Device) (log : List Event) : List Event :=
  log.filter fun e => e.device = d

def State.deviceLog (s : State) (d : Device) : List Event := deviceCalls d s.log

def On (d : Device) (events : List Event) : Prop := ∀ e ∈ events, e.device = d

theorem deviceCalls_append (d : Device) (new log : List Event) :
    deviceCalls d (new ++ log) = deviceCalls d new ++ deviceCalls d log :=
  List.filter_append new log

theorem On.deviceCalls_self {d : Device} {events : List Event} (h : On d events) :
    deviceCalls d events = events := by
  apply List.filter_eq_self.mpr
  intro e he
  simpa using h e he

theorem On.deviceCalls_other {d d' : Device} {events : List Event} (h : On d events)
    (hne : d ≠ d') : deviceCalls d' events = [] := by
  apply List.filter_eq_nil_iff.mpr
  intro e he
  simpa [h e he] using hne

/-! ## Sections in normal form -/

def State.emitAll (s : State) (events : List Event) : State :=
  { s with log := events ++ s.log }

def dashboardCalls (s : State) (r : Reads) : List Event :=
  [.putNumber (literal "LED MODE: ") s.modeIndex,
    .putNumber (literal "WINCHE ENCODER: ") r.dashEncoder,
    .putString (literal "LOCK STATE: ") s.latched.text]

theorem dashboard_eq (s : State) (r : Reads) :
    dashboard s r = s.emitAll (dashboardCalls s r) := rfl

def wrapMode (m : Int) : Int := if 4 < m then 0 else m

theorem ledModes_eq (s : State) :
    ledModes s =
      { s with modeIndex := wrapMode s.modeIndex, log := ledCalls s.modeIndex ++ s.log } := by
  have hshow : ∀ i, showMode s i = { s with log := showModeCalls i ++ s.log } := fun _ => rfl
  unfold ledModes ledCalls wrapMode
  split_ifs <;> first | omega | simp_all

def driveCalls (r : Reads) : List Event :=
  if 3 / 20 < |r.leftX| then [.arcadeDrive .leftStick]
  else if 3 / 20 < |r.leftY| then [.arcadeDrive .leftStick]
  else [.arcadeDrive (.values 0 0)]

theorem driveSticks_eq (s : State) (r : Reads) :
    driveSticks s r = s.emitAll (driveCalls r) := by
  unfold driveSticks driveCalls
  split_ifs <;> rfl

def nextShifted (shifted left3 left4 : Bool) : Bool :=
  if left3 then true else if left4 then false else shifted

/-- The intake position is only looked at when no shifter button is held. -/
def nextIntakeDown (intakeDown left3 left4 left5 left6 : Bool) : Bool :=
  if left3 || left4 then intakeDown
  else if left5 then false
  else if left6 then true
  else intakeDown

theorem leftButtons_eq (s : State) (r : Reads) :
    leftButtons s r =
      { s with
        shifted := nextShifted s.shifted r.left3 r.left4
        intakeDown := nextIntakeDown s.intakeDown r.left3 r.left4 r.left5 r.left6 } := by
  unfold leftButtons nextShifted nextIntakeDown
  split_ifs <;> simp_all

def nextMode (m : Int) (leftTrigger left7 left8 : Bool) : Int :=
  if left8 then 2 else if left7 then 1 else if leftTrigger then m + 1 else m

theorem modeButtons_eq (s : State) (r : Reads) :
    modeButtons s r =
      { s with modeIndex := nextMode s.modeIndex r.leftTrigger r.left7 r.left8 } := by
  unfold modeButtons nextMode
  split_ifs <;> rfl

def nextIntake (right3 right4 : Bool) : Int :=
  if right3 then 1 else if right4 then 2 else 0

theorem rightButtons_eq (s : State) (r : Reads) :
    rightButtons s r = { s with intake := nextIntake r.right3 r.right4 } := by
  unfold rightButtons nextIntake
  split_ifs <;> rfl

def winchCalls (b : WinchBranch) (r : WinchReads) : List Event :=
  match b with
  | .pull => [.encoderReset .winchEncoder, .wench .pull (.set (-4 / 5))]
  | .latch => [.solenoid .lock2 true, .solenoid .lock1 false]
  | .wind => [.wench .wind (.set (4 / 5)), .solenoid .lock2 true, .solenoid .lock1 false]
  | .trigger =>
      [.wench .trigger (.set r.triggerAxis), .wench .triggerStop .stopMotor,
        .solenoid .lock2 false, .solenoid .lock1 true]
  | .windComplete =>
      [.wench .windComplete .stopMotor, .solenoid .lock2 true, .solenoid .lock1 false]
  | .manual =>
      [.solenoid .lock2 false, .solenoid .lock1 true, .wench .manual (.set r.manualAxis)]
  | .hold => []

def nextPressed (b : WinchBranch) (pressed : Bool) : Bool :=
  match b with
  | .wind => true
  | .trigger => false
  | _ => pressed

def nextWinding (b : WinchBranch) (winding : Bool) : Bool :=
  match b with
  | .latch => true
  | .windComplete => false
  | _ => winding

def nextLatched (b : WinchBranch) (l : Latch) : Latch :=
  match b with
  | .latch => .latched
  | .trigger => .unlatched
  | _ => l

theorem winchChain_eq (s : State) (r : WinchReads) :
    winchChain s r =
      { s with
        pressed := nextPressed (winchBranch s.pressed s.winding r) s.pressed
        winding := nextWinding (winchBranch s.pressed s.winding r) s.winding
        latched := nextLatched (winchBranch s.pressed s.winding r) s.latched
        log := winchCalls (winchBranch s.pressed s.winding r) r ++ s.log } := by
  unfold winchChain
  cases winchBranch s.pressed s.winding r <;> rfl

def printCalls (r : Reads) : List Event :=
  if r.right5 then [.println r.printEncoder] else []

theorem printEncoder_eq (s : State) (r : Reads) :
    printEncoder s r = s.emitAll (printCalls r) := by
  unfold printEncoder printCalls
  split_ifs <;> rfl

def intakeMotorCalls (status : Int) : List Event :=
  if status = 0 then [.intakeMotor .stopMotor]
  else if status = 1 then [.intakeMotor (.set 1)]
  else if status = 2 then [.intakeMotor (.set (-1))]
  else []

theorem setIntakeMotor_eq (s : State) (status : Int) :
    setIntakeMotor s status = s.emitAll (intakeMotorCalls status) := by
  unfold setIntakeMotor intakeMotorCalls
  split_ifs <;> rfl

def intakeCalls (intakeDown : Bool) : List Event :=
  [.solenoid .intake2 (!intakeDown), .solenoid .intake1 intakeDown]

theorem intakeSolenoids_eq (s : State) :
    intakeSolenoids s = s.emitAll (intakeCalls s.intakeDown) := by
  unfold intakeSolenoids intakeCalls
  cases s.intakeDown <;> rfl

def shiftCalls (shifted : Bool) : List Event :=
  [.solenoid .shift2 (!shifted), .solenoid .shift1 shifted]

theorem shifters_eq (s : State) : shifters s = s.emitAll (shiftCalls s.shifted) := by
  unfold shifters shiftCalls
  cases s.shifted <;> rfl

/-! ## The whole body -/

/-- The calls of one pass on one device. -/
def callsOn (s : State) (r : Reads) : Device → List Event
  | .compressor => []
  | .dashboard => dashboardCalls s r
  | .console => printCalls r
  | .clock => [.delay (1 / 100)]
  | .drive => driveCalls r
  | .leds => ledCalls s.modeIndex
  | .intakePosition =>
      intakeCalls (nextIntakeDown s.intakeDown r.left3 r.left4 r.left5 r.left6)
  | .shifter => shiftCalls (nextShifted s.shifted r.left3 r.left4)
  | .intakeMotor => intakeMotorCalls (nextIntake r.right3 r.right4)
  | .winch => winchCalls (winchBranch s.pressed s.winding r.winch) r.winch

def bodyCalls (s : State) (r : Reads) : List Event :=
  callsOn s r .clock ++ (callsOn s r .shifter ++ (callsOn s r .intakePosition ++
    (callsOn s r .intakeMotor ++ (callsOn s r .console ++ (callsOn s r .winch ++
      (callsOn s r .drive ++ (callsOn s r .leds ++ callsOn s r .dashboard)))))))

theorem loopBody_eq (s : State) (r : Reads) :
    loopBody s r =
      { intakeDown := nextIntakeDown s.intakeDown r.left3 r.left4 r.left5 r.left6
        intake := nextIntake r.right3 r.right4
        shifted := nextShifted s.shifted r.left3 r.left4
        pressed := nextPressed (winchBranch s.pressed s.winding r.winch) s.pressed
        winding := nextWinding (winchBranch s.pressed s.winding r.winch) s.winding
        latched := nextLatched (winchBranch s.pressed s.winding r.winch) s.latched
        modeIndex := nextMode (wrapMode s.modeIndex) r.leftTrigger r.left7 r.left8
        log := bodyCalls s r ++ s.log } := by
  simp only [loopBody, bodyHead, bodyTail, dashboard_eq, ledModes_eq, driveSticks_eq,
    leftButtons_eq, modeButtons_eq, rightButtons_eq, winchChain_eq, printEncoder_eq,
    setIntakeMotor_eq, intakeSolenoids_eq, shifters_eq, State.emitAll, State.emit, bodyCalls,
    callsOn, List.append_assoc, List.cons_append, List.nil_append]

theorem on_nil (d : Device) : On d [] := by
  simp [On]

theorem on_cons {d : Device} {e : Event} {events : List Event} :
    On d (e :: events) ↔ e.device = d ∧ On d events :=
  List.forall_mem_cons

theorem on_ledCalls (m : Int) : On .leds (ledCalls m) := by
  have hshow : ∀ i, On .leds (showModeCalls i) := by
    intro i
    simp [showModeCalls, on_cons, on_nil, Event.device]
  unfold ledCalls
  split_ifs
  · exact hshow 0
  · exact hshow 1
  · exact hshow 2
  · exact hshow 3
  · exact hshow 4
  · exact on_nil _

theorem on_winchCalls (b : WinchBranch) (r : WinchReads) : On .winch (winchCalls b r) := by
  cases b <;> simp [winchCalls, on_cons, on_nil, Event.device, Solenoid.device, Encoder.device]

theorem on_callsOn (s : State) (r : Reads) (d : Device) : On d (callsOn s r d) := by
  cases d with
  | compressor => exact on_nil _
  | dashboard => simp [callsOn, dashboardCalls, on_cons, on_nil, Event.device]
  | console =>
      unfold callsOn printCalls
      split_ifs <;> simp [on_cons, on_nil, Event.device]
  | clock => simp [callsOn, on_cons, on_nil, Event.device]
  | drive =>
      unfold callsOn driveCalls
      split_ifs <;> simp [on_cons, on_nil, Event.device]
  | leds => exact on_ledCalls s.modeIndex
  | intakePosition =>
      simp [callsOn, intakeCalls, on_cons, on_nil, Event.device, Solenoid.device]
  | shifter => simp [callsOn, shiftCalls, on_cons, on_nil, Event.device, Solenoid.device]
  | intakeMotor =>
      unfold callsOn intakeMotorCalls
      split_ifs <;> simp [on_cons, on_nil, Event.device]
  | winch => exact on_winchCalls _ r.winch

theorem deviceCalls_callsOn (s : State) (r : Reads) (d d' : Device) :
    deviceCalls d (callsOn s r d') = if d' = d then callsOn s r d else [] := by
  split_ifs with h
  · subst h
    exact (on_callsOn s r _).deviceCalls_self
  · exact (on_callsOn s r d').deviceCalls_other h

theorem deviceCalls_bodyCalls (s : State) (r : Reads) (d : Device) :
    deviceCalls d (bodyCalls s r) = callsOn s r d := by
  simp only [bodyCalls, deviceCalls_append, deviceCalls_callsOn]
  cases d <;> simp [callsOn]

theorem mem_bodyCalls (s : State) (r : Reads) (e : Event) :
    e ∈ bodyCalls s r ↔ e ∈ callsOn s r e.device := by
  rw [← deviceCalls_bodyCalls]
  simp [deviceCalls]

/-- A device sees, after a pass, the calls of its own section and nothing else. -/
theorem deviceLog_loopBody (s : State) (r : Reads) (d : Device) :
    (loopBody s r).deviceLog d = callsOn s r d ++ s.deviceLog d := by
  rw [State.deviceLog, loopBody_eq, deviceCalls_append, deviceCalls_bodyCalls]
  rfl

end Sotabots.Robot
