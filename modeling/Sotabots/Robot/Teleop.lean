import Sotabots.Robot.State
import Sotabots.Machine.Trace
import Mathlib.Algebra.Order.Ring.Rat
/-!
# `Robot.operatorControl`

One pass of the teleoperation loop, section by section in the order of the
source.  Every read of a stick, switch or encoder is an input of its own
(`Reads`), so a sensor may change between two tests of one pass; `Inputs` is the
special case of one sample per sensor and pass.

Reads whose value no statement uses (the empty vision branch on left buttons 9
and 10) are left out.
-/

namespace Sotabots.Robot

open Java Machine

/-- What the winch and lock chain reads, in evaluation order.  A read that
short-circuiting skips has a value nobody looks at. -/
structure WinchReads where
  pullButton : Bool
  pullLimit : Bool
  latchLimit : Bool
  latchButton : Bool
  windLimit : Bool
  windEncoder : Int
  trigger : Bool
  triggerAxis : Rat
  stopEncoder : Int
  manualAxis : Rat
  deriving DecidableEq, Repr

structure Reads where
  dashEncoder : Int
  leftX : Rat
  leftY : Rat
  left3 : Bool
  left4 : Bool
  left5 : Bool
  left6 : Bool
  leftTrigger : Bool
  left7 : Bool
  left8 : Bool
  right3 : Bool
  right4 : Bool
  winch : WinchReads
  right5 : Bool
  printEncoder : Int
  deriving DecidableEq, Repr

/-! ## Sections of the loop body -/

def dashboard (s : State) (r : Reads) : State :=
  s.emit (.putString (literal "LOCK STATE: ") s.latched.text)
    |>.emit (.putNumber (literal "WINCHE ENCODER: ") r.dashEncoder)
    |>.emit (.putNumber (literal "LED MODE: ") s.modeIndex)

/-- The five writes of one LED branch: `modes[i]` on, the others off, and always
in the order 4, 0, 1, 2, 3. -/
def showMode (s : State) (i : Fin 5) : State :=
  s.emit (.mode 4 (i = 4))
    |>.emit (.mode 0 (i = 0))
    |>.emit (.mode 1 (i = 1))
    |>.emit (.mode 2 (i = 2))
    |>.emit (.mode 3 (i = 3))

def ledModes (s : State) : State :=
  if s.modeIndex = 0 then showMode s 0
  else if s.modeIndex = 1 then showMode s 1
  else if s.modeIndex = 2 then showMode s 2
  else if s.modeIndex = 3 then showMode s 3
  else if s.modeIndex = 4 then showMode s 4
  -- a pass that only wraps the index writes no output
  else if 4 < s.modeIndex then { s with modeIndex := 0 }
  else s

def showModeCalls (i : Fin 5) : List Event :=
  [.mode 3 (i = 3), .mode 2 (i = 2), .mode 1 (i = 1), .mode 0 (i = 0), .mode 4 (i = 4)]

def ledCalls (m : Int) : List Event :=
  if m = 0 then showModeCalls 0
  else if m = 1 then showModeCalls 1
  else if m = 2 then showModeCalls 2
  else if m = 3 then showModeCalls 3
  else if m = 4 then showModeCalls 4
  else []

def driveSticks (s : State) (r : Reads) : State :=
  if 3 / 20 < |r.leftX| then s.emit (.arcadeDrive .leftStick)
  else if 3 / 20 < |r.leftY| then s.emit (.arcadeDrive .leftStick)
  else s.emit (.arcadeDrive (.values 0 0))

def leftButtons (s : State) (r : Reads) : State :=
  if r.left3 then { s with shifted := true }
  else if r.left4 then { s with shifted := false }
  else if r.left5 then { s with intakeDown := false }
  else if r.left6 then { s with intakeDown := true }
  else s

def modeButtons (s : State) (r : Reads) : State :=
  let s := if r.leftTrigger then { s with modeIndex := s.modeIndex + 1 } else s
  let s := if r.left7 then { s with modeIndex := 1 } else s
  if r.left8 then { s with modeIndex := 2 } else s

def rightButtons (s : State) (r : Reads) : State :=
  if r.right3 then { s with intake := 1 }
  else if r.right4 then { s with intake := 2 }
  else { s with intake := 0 }

/-- The branches of the winch and lock chain; `hold` is the pass on which no
branch is taken. -/
inductive WinchBranch
  | pull | latch | wind | trigger | windComplete | manual | hold
  deriving DecidableEq, Repr

/-- The encoder count at which the winch has paid out. -/
def windCount : Int := 560

def winchBranch (pressed winding : Bool) (r : WinchReads) : WinchBranch :=
  if r.pullButton ∧ r.pullLimit = true ∧ pressed = false then .pull
  else if r.latchLimit = false ∧ r.latchButton then .latch
  else if r.windLimit = false ∧ r.windEncoder < windCount ∧ winding then .wind
  else if r.trigger then .trigger
  else if pressed ∧ windCount ≤ r.stopEncoder then .windComplete
  else if pressed = false then .manual
  else .hold

def winchChain (s : State) (r : WinchReads) : State :=
  match winchBranch s.pressed s.winding r with
  | .pull =>
      s.emit (.wench .pull (.set (-4 / 5)))
        |>.emit (.encoderReset .winchEncoder)
  | .latch =>
      { s with latched := .latched, winding := true }
        |>.emit (.solenoid .lock1 false)
        |>.emit (.solenoid .lock2 true)
  | .wind =>
      { s with pressed := true }
        |>.emit (.solenoid .lock1 false)
        |>.emit (.solenoid .lock2 true)
        |>.emit (.wench .wind (.set (4 / 5)))
  | .trigger =>
      { s with latched := .unlatched, pressed := false }
        |>.emit (.solenoid .lock1 true)
        |>.emit (.solenoid .lock2 false)
        |>.emit (.wench .triggerStop .stopMotor)
        |>.emit (.wench .trigger (.set r.triggerAxis))
  | .windComplete =>
      let s := s.emit (.solenoid .lock1 false) |>.emit (.solenoid .lock2 true)
      State.emit { s with winding := false } (.wench .windComplete .stopMotor)
  | .manual =>
      s.emit (.wench .manual (.set r.manualAxis))
        |>.emit (.solenoid .lock1 true)
        |>.emit (.solenoid .lock2 false)
  | .hold => s

def printEncoder (s : State) (r : Reads) : State :=
  if r.right5 then s.emit (.println r.printEncoder) else s

def setIntakeMotor (s : State) (status : Int) : State :=
  if status = 0 then s.emit (.intakeMotor .stopMotor)
  else if status = 1 then s.emit (.intakeMotor (.set 1))
  else if status = 2 then s.emit (.intakeMotor (.set (-1)))
  else s

def intakeSolenoids (s : State) : State :=
  if s.intakeDown then
    s.emit (.solenoid .intake1 true) |>.emit (.solenoid .intake2 false)
  else
    s.emit (.solenoid .intake1 false) |>.emit (.solenoid .intake2 true)

def shifters (s : State) : State :=
  if s.shifted then
    s.emit (.solenoid .shift1 true) |>.emit (.solenoid .shift2 false)
  else
    s.emit (.solenoid .shift1 false) |>.emit (.solenoid .shift2 true)

/-! ## The loop -/

def bodyHead (s : State) (r : Reads) : State :=
  rightButtons (modeButtons (leftButtons (driveSticks (ledModes (dashboard s r)) r) r) r) r

def bodyTail (s : State) (r : Reads) : State :=
  let s := printEncoder s r
  (shifters (intakeSolenoids (setIntakeMotor s s.intake))).emit (.delay (1 / 100))

def loopBody (s : State) (r : Reads) : State :=
  bodyTail (winchChain (bodyHead s r) r.winch) r

def teleopEntry (s : State) : State :=
  s.emit .compressorStart
    |>.emit (.encoderStart .winchEncoder)
    |>.emit (.wench .teleopEntry (.set 0))
    |>.emit (.encoderStart .drive1)
    |>.emit (.encoderReset .drive1)
    |>.emit (.setSafetyEnabled false)

/-! ## One sample per sensor and pass -/

structure WinchSample where
  button2 : Bool
  limSwitch : Bool
  winchEncoder : Int
  trigger : Bool
  axisY : Rat
  deriving DecidableEq, Repr

structure Inputs where
  leftX : Rat
  leftY : Rat
  left3 : Bool
  left4 : Bool
  left5 : Bool
  left6 : Bool
  leftTrigger : Bool
  left7 : Bool
  left8 : Bool
  right3 : Bool
  right4 : Bool
  right5 : Bool
  winch : WinchSample
  deriving DecidableEq, Repr

def WinchSample.reads (w : WinchSample) : WinchReads where
  pullButton := w.button2
  pullLimit := w.limSwitch
  latchLimit := w.limSwitch
  latchButton := w.button2
  windLimit := w.limSwitch
  windEncoder := w.winchEncoder
  trigger := w.trigger
  triggerAxis := w.axisY
  stopEncoder := w.winchEncoder
  manualAxis := w.axisY

def Inputs.reads (i : Inputs) : Reads where
  dashEncoder := i.winch.winchEncoder
  leftX := i.leftX
  leftY := i.leftY
  left3 := i.left3
  left4 := i.left4
  left5 := i.left5
  left6 := i.left6
  leftTrigger := i.leftTrigger
  left7 := i.left7
  left8 := i.left8
  right3 := i.right3
  right4 := i.right4
  winch := i.winch.reads
  right5 := i.right5
  printEncoder := i.winch.winchEncoder

/-- A pass on which only the winch controls are touched. -/
def Inputs.ofWinch (w : WinchSample) : Inputs where
  leftX := 0
  leftY := 0
  left3 := false
  left4 := false
  left5 := false
  left6 := false
  leftTrigger := false
  left7 := false
  left8 := false
  right3 := false
  right4 := false
  right5 := false
  winch := w

def sampledBody (s : State) (i : Inputs) : State := loopBody s i.reads

/-- One teleoperation period of as many passes as there are inputs. -/
def operatorControl (s : State) (inputs : List Inputs) : State :=
  run sampledBody (teleopEntry s) inputs

def teleopTrace (s : State) (inputs : List Inputs) : List (Iteration State Inputs) :=
  iterations sampledBody (teleopEntry s) inputs

end Sotabots.Robot
