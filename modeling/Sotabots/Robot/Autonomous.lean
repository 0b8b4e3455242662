import Sotabots.Robot.State
import Sotabots.Network.Listen
import Sotabots.Machine.Loop
import Mathlib.Algebra.Order.Ring.Rat
/-!
# `Robot.autonomous`

The autonomous period: four sensor-driven loops in sequence.  The readings are
streams: `time e n` is the `n`-th reading of `time_1` after its `e`-th reset,
and `drive k` the `k`-th reading of `drive_1`.  A state of the run carries the
robot and how many readings of each stream have been used up.
-/

namespace Sotabots.Robot

open Java Machine Network

/-- The readings of a timer: they never go below zero or back between resets. -/
structure Timer where
  reading : ℕ → ℕ → Rat
  nonneg : ∀ e n, 0 ≤ reading e n
  mono : ∀ e, Monotone (reading e)

/-- Everything outside the program during one autonomous period.  `mode` is what
`isAutonomous() && isEnabled()` would return; no statement of `autonomous` asks. -/
structure Oracle where
  time : Timer
  drive : ℕ → Int
  mode : ℕ → Bool
  link : Link

/-- A point in the run: the robot, the resets of `time_1`, its readings since the
last one, and the readings of `drive_1`. -/
structure Auto where
  robot : State
  epoch : ℕ
  ticks : ℕ
  reads : ℕ

namespace Auto

def emit (a : Auto) (e : Event) : Auto := { a with robot := a.robot.emit e }

def timeReset (a : Auto) : Auto :=
  { a with robot := a.robot.emit .timerReset, epoch := a.epoch + 1, ticks := 0 }

def now (o : Oracle) (a : Auto) : Rat := o.time.reading a.epoch a.ticks

def timeGet (o : Oracle) (a : Auto) : Auto :=
  { a with robot := a.robot.emit (.timerGet (a.now o)), ticks := a.ticks + 1 }

def position (o : Oracle) (a : Auto) : Int := o.drive a.reads

def driveGet (a : Auto) : Auto := { a with reads := a.reads + 1 }

def arcadeDrive (a : Auto) (move rotate : Rat) : Auto :=
  a.emit (.arcadeDrive (.values move rotate))

section Components

variable (o : Oracle) (a : Auto) (e : Event)

@[simp] theorem epoch_emit : (a.emit e).epoch = a.epoch := rfl

@[simp] theorem ticks_emit : (a.emit e).ticks = a.ticks := rfl

@[simp] theorem reads_emit : (a.emit e).reads = a.reads := rfl

@[simp] theorem epoch_timeGet : (a.timeGet o).epoch = a.epoch := rfl

@[simp] theorem ticks_timeGet : (a.timeGet o).ticks = a.ticks + 1 := rfl

@[simp] theorem reads_timeGet : (a.timeGet o).reads = a.reads := rfl

@[simp] theorem reads_timeReset : a.timeReset.reads = a.reads := rfl

@[simp] theorem reads_driveGet : a.driveGet.reads = a.reads + 1 := rfl

@[simp] theorem epoch_arcadeDrive (move rotate : Rat) :
    (a.arcadeDrive move rotate).epoch = a.epoch := rfl

@[simp] theorem ticks_arcadeDrive (move rotate : Rat) :
    (a.arcadeDrive move rotate).ticks = a.ticks := rfl

@[simp] theorem reads_arcadeDrive (move rotate : Rat) :
    (a.arcadeDrive move rotate).reads = a.reads := rfl

@[simp] theorem robot_emit : (a.emit e).robot = a.robot.emit e := rfl

@[simp] theorem robot_timeReset : a.timeReset.robot = a.robot.emit .timerReset := rfl

@[simp] theorem robot_timeGet :
    (a.timeGet o).robot = a.robot.emit (.timerGet (a.now o)) := rfl

@[simp] theorem robot_driveGet : a.driveGet.robot = a.robot := rfl

@[simp] theorem robot_arcadeDrive (move rotate : Rat) :
    (a.arcadeDrive move rotate).robot = a.robot.emit (.arcadeDrive (.values move rotate)) := rfl

end Components

end Auto

def autonomousEntry (s : State) : Auto :=
  let s := s.emit .compressorStart
    |>.emit (.encoderStart .winchEncoder)
    |>.emit (.solenoid .intake1 true)
    |>.emit (.solenoid .intake2 false)
    |>.emit (.wench .autonomousEntry (.set 0))
  let s := { s with intakeDown := true }
    |>.emit (.solenoid .lock1 false)
    |>.emit (.solenoid .lock2 true)
  let a := Auto.timeReset ⟨s, 0, 0, 0⟩
  a.emit .timerStart
    |>.emit (.encoderReset .drive1)
    |>.emit (.encoderStart .drive1)
    |>.emit (.setSafetyEnabled false)
    |>.arcadeDrive 0 0

/-- `while (time_1.get() < 0.5)`: hold the lock and stand still. -/
def waitLoop (o : Oracle) : Loop Auto where
  test a := (a.now o < 1 / 2, a.timeGet o)
  body a := a.emit (.solenoid .lock1 false)
    |>.emit (.solenoid .lock2 true)
    |>.arcadeDrive 0 0

def showDetected (o : Oracle) (a : Auto) : Auto :=
  let reply := listenCoor o.link
  let a := match reply.printed with
    | some line => a.emit (.printLine line)
    | none => a
  if reply.value ≠ literal "-2,-2" then a.emit (.putString (literal "Detected: ") reply.value)
  else a.emit (.putString (literal "Detected: ") (literal "Failed."))

theorem showDetected_frame {β : Type} {f : Auto → β} (hf : ∀ a e, f (a.emit e) = f a)
    {o : Oracle} {a : Auto} : f (showDetected o a) = f a := by
  simp only [showDetected]
  cases (listenCoor o.link).printed <;> split_ifs <;> simp only [hf]

/-- `while (drive_1.get() > -3400)`: drive, print a second reading, and restart
the clock. -/
def driveLoop (o : Oracle) : Loop Auto where
  test a := (-3400 < a.position o, a.driveGet)
  body a :=
    let a := a.arcadeDrive (-4 / 5) 0
    (a.emit (.println (a.position o))).driveGet.timeReset

def settleLoop (o : Oracle) : Loop Auto where
  test a := (a.now o < 9 / 5, a.timeGet o)
  body a := a.arcadeDrive 0 0 |>.emit (.encoderReset .drive1)

/-- `while (time_1.get() >= 1.8 && time_1.get() < 2)`: release the lock.  The
second reading is taken only when the first one passes. -/
def shootLoop (o : Oracle) : Loop Auto where
  test a :=
    if 9 / 5 ≤ a.now o then
      ((a.timeGet o).now o < 2, (a.timeGet o).timeGet o)
    else (false, a.timeGet o)
  body a := a.emit (.solenoid .lock1 true)
    |>.emit (.solenoid .lock2 false)
    |>.arcadeDrive 0 0
    |>.emit (.encoderReset .drive1)

/-- `autonomous()`, each loop running at most `fuel` tests. -/
def autonomous (o : Oracle) (fuel : ℕ) (s : State) : Option State := do
  let a ← (waitLoop o).exec fuel (autonomousEntry s)
  let a ← (driveLoop o).exec fuel (showDetected o a)
  let a ← (settleLoop o).exec fuel a
  let a ← (shootLoop o).exec fuel a
  return (a.arcadeDrive 0 0).robot

def AutonomousReturns (o : Oracle) (s t : State) : Prop :=
  ∃ fuel, autonomous o fuel s = some t

theorem autonomousReturns_iff {o : Oracle} {s t : State} :
    AutonomousReturns o s t ↔ ∃ waited driven settled shot,
      (waitLoop o).Exits (autonomousEntry s) waited ∧
        (driveLoop o).Exits (showDetected o waited) driven ∧
        (settleLoop o).Exits driven settled ∧
        (shootLoop o).Exits settled shot ∧ (shot.arcadeDrive 0 0).robot = t := by
  constructor
  · rintro ⟨fuel, h⟩
    simp only [autonomous, Option.bind_eq_bind, Option.bind_eq_some_iff, Option.pure_def,
      Option.some.injEq] at h
    obtain ⟨waited, hwait, driven, hdrive, settled, hsettle, shot, hshoot, ht⟩ := h
    exact ⟨waited, driven, settled, shot, ⟨fuel, hwait⟩, ⟨fuel, hdrive⟩, ⟨fuel, hsettle⟩,
      ⟨fuel, hshoot⟩, ht⟩
  · rintro ⟨waited, driven, settled, shot, ⟨f₁, hwait⟩, ⟨f₂, hdrive⟩, ⟨f₃, hsettle⟩,
      ⟨f₄, hshoot⟩, ht⟩
    -- fuel for the longest loop is enough for all four
    refine ⟨max (max f₁ f₂) (max f₃ f₄), ?_⟩
    simp only [autonomous, Option.bind_eq_bind, Option.bind_eq_some_iff, Option.pure_def,
      Option.some.injEq]
    exact ⟨waited, Loop.exec_mono (by omega) hwait, driven, Loop.exec_mono (by omega) hdrive,
      settled, Loop.exec_mono (by omega) hsettle, shot, Loop.exec_mono (by omega) hshoot, ht⟩

end Sotabots.Robot
