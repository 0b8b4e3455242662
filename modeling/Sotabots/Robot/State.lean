import Sotabots.Java.Platform
import Mathlib.Data.Rat.Defs
/-!
# The robot object and its hardware log

`State` holds the fields of `Robot` that its methods read and write, and the log
of every call those methods have made on the hardware, most recent first.  What
an actuator is doing is what the last call on it said, so outputs are read off
the log.  Doubles are exact rationals.
-/

namespace Sotabots.Robot

open Java

inductive Solenoid
  | intake1 | intake2 | shift1 | shift2 | lock1 | lock2
  deriving DecidableEq, Repr

inductive Encoder
  | winchEncoder | drive1
  deriving DecidableEq, Repr

inductive MotorCommand
  | set (speed : Rat)
  | stopMotor
  deriving DecidableEq, Repr

inductive DriveCommand
  | values (move rotate : Rat)
  | leftStick
  deriving DecidableEq, Repr

/-- The statement of the source a `wench` command comes from.  Two statements can
pass the same speed: the stick may ask for the speed of the automatic wind. -/
inductive WenchSite
  | autonomousEntry | teleopEntry
  | pull | wind | triggerStop | trigger | windComplete | manual
  deriving DecidableEq, Repr

inductive Latch
  | latched | unlatched
  deriving DecidableEq, Repr

def Latch.text : Latch → JavaString
  | .latched => literal "Latched"
  | .unlatched => literal "Unlatched"

/-- A call on the hardware or the dashboard; `timerGet` also records the reading. -/
inductive Event
  | compressorStart
  | encoderStart (e : Encoder)
  | encoderReset (e : Encoder)
  | solenoid (p : Solenoid) (on : Bool)
  | wench (site : WenchSite) (c : MotorCommand)
  | intakeMotor (c : MotorCommand)
  | mode (i : Fin 5) (on : Bool)
  | setSafetyEnabled (on : Bool)
  | arcadeDrive (c : DriveCommand)
  | timerReset
  | timerStart
  | timerGet (seconds : Rat)
  | delay (seconds : Rat)
  | putString (key value : JavaString)
  | putNumber (key : JavaString) (value : Int)
  | println (value : Int)
  | printLine (text : JavaString)
  deriving DecidableEq, Repr

/-- The fields of `Robot`, with their initialisers, and the hardware log. -/
structure State where
  intakeDown : Bool := true
  intake : Int := 0
  shifted : Bool := false
  pressed : Bool := false
  winding : Bool := false
  latched : Latch := .unlatched
  modeIndex : Int := 0
  log : List Event := []
  deriving DecidableEq, Repr

def State.initial : State := {}

def State.emit (s : State) (e : Event) : State := { s with log := e :: s.log }

section Emit

variable (s : State) (e : Event)

@[simp] theorem State.intakeDown_emit : (s.emit e).intakeDown = s.intakeDown := rfl

@[simp] theorem State.intake_emit : (s.emit e).intake = s.intake := rfl

@[simp] theorem State.shifted_emit : (s.emit e).shifted = s.shifted := rfl

@[simp] theorem State.pressed_emit : (s.emit e).pressed = s.pressed := rfl

@[simp] theorem State.winding_emit : (s.emit e).winding = s.winding := rfl

@[simp] theorem State.latched_emit : (s.emit e).latched = s.latched := rfl

@[simp] theorem State.modeIndex_emit : (s.emit e).modeIndex = s.modeIndex := rfl

@[simp] theorem State.log_emit : (s.emit e).log = e :: s.log := rfl

end Emit

/-! ## Outputs -/

def Event.solenoidValue (p : Solenoid) : Event → Option Bool
  | .solenoid q on => if q = p then some on else none
  | _ => none

def Event.wenchCommand : Event → Option (WenchSite × MotorCommand)
  | .wench site c => some (site, c)
  | _ => none

/-- The value a solenoid was last given; WPILib leaves it off before that. -/
def outputOf (p : Solenoid) (log : List Event) : Bool :=
  (log.findSome? (Event.solenoidValue p)).getD false

/-- The last command given to the winch motor, with the statement that gave it. -/
def wenchOf (log : List Event) : Option (WenchSite × MotorCommand) :=
  log.findSome? Event.wenchCommand

theorem outputOf_cons (p : Solenoid) (e : Event) (log : List Event) :
    outputOf p (e :: log) = (e.solenoidValue p).getD (outputOf p log) := by
  unfold outputOf
  rw [List.findSome?_cons]
  cases e.solenoidValue p <;> rfl

theorem wenchOf_cons (e : Event) (log : List Event) :
    wenchOf (e :: log) = e.wenchCommand.or (wenchOf log) := by
  unfold wenchOf
  rw [List.findSome?_cons]
  cases e.wenchCommand <;> rfl

def State.output (s : State) (p : Solenoid) : Bool := outputOf p s.log

def State.lock1 (s : State) : Bool := s.output .lock1

def State.lock2 (s : State) : Bool := s.output .lock2

def State.wench (s : State) : Option (WenchSite × MotorCommand) := wenchOf s.log

def State.wenchSite (s : State) : Option WenchSite := s.wench.map Prod.fst

def State.Locked (s : State) : Prop := s.lock1 = false ∧ s.lock2 = true

def State.Released (s : State) : Prop := s.lock1 = true ∧ s.lock2 = false

theorem State.output_emit (s : State) (e : Event) (p : Solenoid) :
    (s.emit e).output p = (e.solenoidValue p).getD (s.output p) :=
  outputOf_cons p e s.log

instance (s : State) : Decidable s.Locked := inferInstanceAs (Decidable (_ ∧ _))

instance (s : State) : Decidable s.Released := inferInstanceAs (Decidable (_ ∧ _))

end Sotabots.Robot
