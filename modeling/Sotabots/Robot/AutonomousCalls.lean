import Sotabots.Robot.AutonomousShot
import Sotabots.Robot.Winch
import Sotabots.Network.Exchange
/-!
# What `autonomous` hands over

After its entry, `autonomous` only works the lock, the drive, the clock and the
two displays.  `autonomousReturns_calls` says so once for the whole method; what
the next period finds on each mechanism is read off it.
-/

namespace Sotabots.Robot

open Java Machine Network

/-! ## The calls of the loops -/

/-- The calls that the statements after the entry can make. -/
def Event.InAutonomousLoops : Event → Prop
  | .solenoid p _ => p = .lock1 ∨ p = .lock2
  | .arcadeDrive c => c = .values 0 0 ∨ c = .values (-4 / 5) 0
  | .encoderReset e => e = .drive1
  | .putString key _ => key = literal "Detected: "
  | .timerReset | .timerGet _ | .println _ | .printLine _ => True
  | _ => False

theorem Event.InAutonomousLoops.device {e : Event} (h : e.InAutonomousLoops) :
    e.device ≠ .leds ∧ e.device ≠ .shifter ∧ e.device ≠ .intakeMotor := by
  cases e with
  | solenoid p on => rcases h with rfl | rfl <;> simp [Event.device, Solenoid.device]
  | encoderReset e =>
      obtain rfl : e = .drive1 := h
      simp [Event.device, Encoder.device]
  | arcadeDrive | putString | timerReset | timerGet | println | printLine => simp [Event.device]
  | _ => exact absurd h id

/-- From `s` to `r`: only such calls, and `shown` on the dashboard, most recent
first. -/
def LoopCalls (s : State) (shown : List Event) (r : State) : Prop :=
  ∃ calls, r = { s with log := calls ++ s.log } ∧ (∀ e ∈ calls, e.InAutonomousLoops) ∧
    deviceCalls .dashboard calls = shown

section LoopCalls

variable {s r : State} {shown : List Event} {o : Oracle} {a t : Auto}

theorem loopCalls_refl (s : State) : LoopCalls s [] s :=
  ⟨[], rfl, by simp, rfl⟩

theorem LoopCalls.emit (h : LoopCalls s shown r) (e : Event) (he : e.InAutonomousLoops)
    (hdevice : decide (e.device = .dashboard) = false) : LoopCalls s shown (r.emit e) := by
  obtain ⟨calls, rfl, hcalls, rfl⟩ := h
  refine ⟨e :: calls, rfl, ?_, ?_⟩
  · exact List.forall_mem_cons.mpr ⟨he, hcalls⟩
  · exact List.filter_cons_of_neg (by simp [hdevice])

theorem LoopCalls.emit_putString (h : LoopCalls s shown r) (value : JavaString) :
    LoopCalls s (.putString (literal "Detected: ") value :: shown)
      (r.emit (.putString (literal "Detected: ") value)) := by
  obtain ⟨calls, rfl, hcalls, rfl⟩ := h
  refine ⟨.putString (literal "Detected: ") value :: calls, rfl, ?_, rfl⟩
  exact List.forall_mem_cons.mpr ⟨rfl, hcalls⟩

theorem LoopCalls.exits {L : Loop Auto} (h : LoopCalls s shown a.robot) (hexit : L.Exits a t)
    (htest : ∀ u, LoopCalls s shown u.robot → LoopCalls s shown (L.test u).2.robot)
    (hbody : ∀ u, LoopCalls s shown u.robot → LoopCalls s shown (L.body u).robot) :
    LoopCalls s shown t.robot := by
  obtain ⟨u, hu, -, rfl⟩ := hexit.invariant (I := fun u => LoopCalls s shown u.robot) h
    fun u hu _ => hbody _ (htest u hu)
  exact htest u hu

theorem LoopCalls.timeGet (h : LoopCalls s shown a.robot) :
    LoopCalls s shown (a.timeGet o).robot :=
  h.emit (.timerGet (a.now o)) trivial rfl

theorem LoopCalls.arcadeDrive (h : LoopCalls s shown a.robot) {move : Rat}
    (hmove : move = 0 ∨ move = -4 / 5) : LoopCalls s shown (a.arcadeDrive move 0).robot := by
  refine h.emit (.arcadeDrive (.values move 0)) ?_ rfl
  rcases hmove with rfl | rfl
  · exact Or.inl rfl
  · exact Or.inr rfl

theorem LoopCalls.lock (h : LoopCalls s shown r) (on on' : Bool) :
    LoopCalls s shown ((r.emit (.solenoid .lock1 on)).emit (.solenoid .lock2 on')) :=
  (h.emit (.solenoid .lock1 on) (Or.inl rfl) rfl).emit (.solenoid .lock2 on') (Or.inr rfl) rfl

theorem LoopCalls.waited (h : LoopCalls s shown a.robot) (hexit : (waitLoop o).Exits a t) :
    LoopCalls s shown t.robot :=
  h.exits hexit (fun _ hu => hu.timeGet) fun u hu =>
    LoopCalls.arcadeDrive (a := (u.emit _).emit _) (hu.lock false true) (Or.inl rfl)

theorem LoopCalls.driven (h : LoopCalls s shown a.robot) (hexit : (driveLoop o).Exits a t) :
    LoopCalls s shown t.robot :=
  h.exits hexit (fun _ hu => hu) fun u hu =>
    ((hu.arcadeDrive (Or.inr rfl)).emit (.println (u.position o)) trivial rfl).emit
      .timerReset trivial rfl

theorem LoopCalls.settled (h : LoopCalls s shown a.robot) (hexit : (settleLoop o).Exits a t) :
    LoopCalls s shown t.robot :=
  h.exits hexit (fun _ hu => hu.timeGet) fun _ hu =>
    (hu.arcadeDrive (Or.inl rfl)).emit (.encoderReset .drive1) rfl rfl

theorem LoopCalls.shot (h : LoopCalls s shown a.robot) (hexit : (shootLoop o).Exits a t) :
    LoopCalls s shown t.robot := by
  refine h.exits hexit ?_ fun u hu => ?_
  · intro u hu
    simp only [shootLoop]
    split_ifs
    · exact hu.timeGet.timeGet
    · exact hu.timeGet
  · exact (LoopCalls.arcadeDrive (a := (u.emit _).emit _) (hu.lock true false)
      (Or.inl rfl)).emit (.encoderReset .drive1) rfl rfl

def detectedText (link : Link) : JavaString :=
  if (listenCoor link).value ≠ literal "-2,-2" then (listenCoor link).value
  else literal "Failed."

theorem LoopCalls.detected (h : LoopCalls s shown a.robot) :
    LoopCalls s (.putString (literal "Detected: ") (detectedText o.link) :: shown)
      (showDetected o a).robot := by
  have hline : ∀ line, LoopCalls s shown (a.emit (.printLine line)).robot :=
    fun line => h.emit (.printLine line) trivial rfl
  simp only [showDetected, detectedText]
  cases (listenCoor o.link).printed with
  | none => split_ifs <;> exact h.emit_putString _
  | some line => split_ifs <;> exact (hline line).emit_putString _

end LoopCalls

/-- The whole method after its entry: calls of the loops only, one text on the
dashboard, and a stop as the last call. -/
theorem autonomousReturns_calls {o : Oracle} {s t : State} (h : AutonomousReturns o s t) :
    ∃ calls, t = State.emit { (autonomousEntry s).robot with
        log := calls ++ (autonomousEntry s).robot.log } (.arcadeDrive (.values 0 0)) ∧
      (∀ e ∈ calls, e.InAutonomousLoops) ∧
      deviceCalls .dashboard calls = [.putString (literal "Detected: ") (detectedText o.link)] := by
  obtain ⟨waited, driven, settled, shot, hwait, hdrive, hsettle, hshoot, rfl⟩ :=
    autonomousReturns_iff.mp h
  have hwaited := (loopCalls_refl (autonomousEntry s).robot).waited hwait
  obtain ⟨calls, hshot, hcalls⟩ := ((hwaited.detected.driven hdrive).settled hsettle).shot hshoot
  refine ⟨calls, ?_, hcalls⟩
  rw [← hshot]
  rfl

/-! ## What the next period finds -/

theorem findSome?_append_of_none {β : Type} {f : Event → Option β} {calls log : List Event}
    (h : ∀ e ∈ calls, f e = none) : (calls ++ log).findSome? f = log.findSome? f := by
  rw [List.findSome?_append, List.findSome?_eq_none_iff.mpr h]
  rfl

section Returns

variable {o : Oracle} {s t : State}

theorem fields_of_autonomousReturns (h : AutonomousReturns o s t) :
    t = { s with intakeDown := true, log := t.log } := by
  obtain ⟨calls, rfl, -⟩ := autonomousReturns_calls h
  rfl

theorem drive_of_autonomousReturns (h : AutonomousReturns o s t) :
    t.log.findSome? Event.driveCommand = some (.values 0 0) := by
  obtain ⟨calls, rfl, -⟩ := autonomousReturns_calls h
  rfl

theorem wench_of_autonomousReturns (h : AutonomousReturns o s t) :
    t.wench = some (.autonomousEntry, .set 0) := by
  obtain ⟨calls, rfl, hcalls, -⟩ := autonomousReturns_calls h
  have hnone : ∀ e ∈ calls, e.wenchCommand = none := by
    intro e he
    have hin := hcalls e he
    cases e with
    | wench site c => exact absurd hin id
    | _ => rfl
  exact findSome?_append_of_none hnone

theorem output_of_autonomousReturns (h : AutonomousReturns o s t) {p : Solenoid}
    (h1 : p ≠ .lock1) (h2 : p ≠ .lock2) :
    t.output p = (autonomousEntry s).robot.output p := by
  obtain ⟨calls, rfl, hcalls, -⟩ := autonomousReturns_calls h
  have hnone : ∀ e ∈ calls, e.solenoidValue p = none := by
    intro e he
    have hin := hcalls e he
    cases e with
    | solenoid q on =>
        have hne : q ≠ p := by
          rintro rfl
          exact hin.elim h1 h2
        simp [Event.solenoidValue, hne]
    | _ => rfl
  unfold State.output outputOf
  exact congrArg (Option.getD · false) (findSome?_append_of_none hnone)

theorem deviceLog_of_autonomousReturns (h : AutonomousReturns o s t) {d : Device}
    (hd : d = .leds ∨ d = .shifter ∨ d = .intakeMotor) : t.deviceLog d = s.deviceLog d := by
  obtain ⟨calls, rfl, hcalls, -⟩ := autonomousReturns_calls h
  have hnone : deviceCalls d calls = [] := by
    apply List.filter_eq_nil_iff.mpr
    intro e he
    have hdevice := (hcalls e he).device
    rcases hd with rfl | rfl | rfl <;> simp [hdevice]
  have hentry : deviceCalls d (autonomousEntry s).robot.log = deviceCalls d s.log := by
    rcases hd with rfl | rfl | rfl <;>
      simp [deviceCalls, autonomousEntry, Event.device, Encoder.device, Solenoid.device]
  have hstop : deviceCalls d [.arcadeDrive (.values 0 0)] = [] := by
    rcases hd with rfl | rfl | rfl <;> rfl
  calc deviceCalls d ([.arcadeDrive (.values 0 0)] ++ (calls ++ (autonomousEntry s).robot.log))
      = deviceCalls d (autonomousEntry s).robot.log := by
        rw [deviceCalls_append, deviceCalls_append, hnone, hstop]
        rfl
    _ = deviceCalls d s.log := hentry

theorem dashboard_of_autonomousReturns (h : AutonomousReturns o s t) :
    ∃ calls, t.log = calls ++ s.log ∧
      deviceCalls .dashboard calls = [.putString (literal "Detected: ") (detectedText o.link)] := by
  obtain ⟨calls, rfl, -, hshown⟩ := autonomousReturns_calls h
  obtain ⟨entry, hentry, hnone⟩ : ∃ entry, (autonomousEntry s).robot.log = entry ++ s.log ∧
      deviceCalls .dashboard entry = [] :=
    ⟨[.arcadeDrive (.values 0 0), .setSafetyEnabled false, .encoderStart .drive1,
      .encoderReset .drive1, .timerStart, .timerReset, .solenoid .lock2 true,
      .solenoid .lock1 false, .wench .autonomousEntry (.set 0), .solenoid .intake2 false,
      .solenoid .intake1 true, .encoderStart .winchEncoder, .compressorStart], rfl, rfl⟩
  refine ⟨.arcadeDrive (.values 0 0) :: (calls ++ entry), ?_, ?_⟩
  · simp [hentry]
  · have hdrive : deviceCalls .dashboard [.arcadeDrive (.values 0 0)] = [] := rfl
    rw [← List.singleton_append, deviceCalls_append, deviceCalls_append, hnone, hdrive, hshown,
      List.nil_append, List.append_nil]

end Returns

/-- `t` as left by `autonomous` entered in `s` with the answer on `link`. -/
structure HandedOver (link : Link) (s t : State) : Prop where
  fields : t = { s with intakeDown := true, log := t.log }
  drive : t.log.findSome? Event.driveCommand = some (.values 0 0)
  wench : t.wench = some (.autonomousEntry, .set 0)
  intake : t.output .intake1 = true ∧ t.output .intake2 = false
  untouched : ∀ d, d = .leds ∨ d = .shifter ∨ d = .intakeMotor → t.deviceLog d = s.deviceLog d
  dashboard : ∃ calls, t.log = calls ++ s.log ∧
    deviceCalls .dashboard calls = [.putString (literal "Detected: ") (detectedText link)]

/-- However long the loops run and whatever the sensors say, a call that returns
leaves the drive and the winch stopped and the intake down, has touched no field
but `intakeDown` and neither LEDs, shifter nor intake motor, and has given the
dashboard the one text that the link's answer amounts to. -/
theorem autonomous_handover {o : Oracle} {s t : State} (h : AutonomousReturns o s t) :
    HandedOver o.link s t where
  fields := fields_of_autonomousReturns h
  drive := drive_of_autonomousReturns h
  wench := wench_of_autonomousReturns h
  intake :=
    ⟨output_of_autonomousReturns h (by simp) (by simp),
      output_of_autonomousReturns h (by simp) (by simp)⟩
  untouched _ hd := deviceLog_of_autonomousReturns h hd
  dashboard := dashboard_of_autonomousReturns h

theorem autonomous_handover_ticks :
    AutonomousReturns tickOracle latchedRobot (afterTicks latchedRobot) ∧
      HandedOver tickOracle.link latchedRobot (afterTicks latchedRobot) := by
  have hreturns : AutonomousReturns tickOracle latchedRobot (afterTicks latchedRobot) :=
    autonomousReturns_afterTicks (by decide +kernel)
  exact ⟨hreturns, autonomous_handover hreturns⟩

/-! ## What the operators see of the vision computer -/

/-- Whatever plain texts the vision computer sends, whatever becomes of the
connection and however the loops run, a call of `autonomous` makes one call on the
dashboard, and it says that the detection failed. -/
theorem autonomous_shows_failed {program : List PyValue}
    (hprogram : ∀ v ∈ program, PlainText v) {o : Oracle}
    (hlink : Possible [] o.link ∨ ∃ v ∈ program, Possible v.str o.link) {s t : State}
    (h : AutonomousReturns o s t) :
    ∃ calls, t.log = calls ++ s.log ∧
      deviceCalls .dashboard calls = [.putString (literal "Detected: ") (literal "Failed.")] := by
  have hfailed : (listenCoor o.link).value = literal "-2,-2" := by
    rcases hlink with hlink | ⟨v, hv, hlink⟩
    · exact (listenCoor_empty (by simp) (by simp) hlink).1
    · exact (listenCoor_empty (hprogram v hv).1 (hprogram v hv).2 hlink).1
  have htext : detectedText o.link = literal "Failed." := by
    rw [detectedText, if_neg (by simp [hfailed])]
  rw [← htext]
  exact dashboard_of_autonomousReturns h

theorem autonomous_shows_failed_ticks :
    AutonomousReturns tickOracle State.initial (afterTicks State.initial) ∧
      ∃ calls, (afterTicks State.initial).log = calls ++ State.initial.log ∧
        deviceCalls .dashboard calls = [.putString (literal "Detected: ") (literal "Failed.")] := by
  have hreturns : AutonomousReturns tickOracle State.initial (afterTicks State.initial) :=
    autonomousReturns_afterTicks (by decide +kernel)
  have hone : PyValue.int 1 ∈ visionProgram 1 := List.mem_cons_self
  exact ⟨hreturns, autonomous_shows_failed (fun _ hv => plainText_of_mem_visionProgram hv)
    (Or.inr ⟨_, hone, .part List.prefix_rfl⟩) hreturns⟩

end Sotabots.Robot
