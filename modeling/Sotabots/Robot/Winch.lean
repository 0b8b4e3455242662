import Sotabots.Robot.Components
/-!
# The winch controller

The winch and lock chain as a machine of its own: the three fields it keeps and
the calls on its actuators.  `winch_loopBody` says that a pass of the whole loop
body moves this view exactly as `Winch.step` does, so what is proved of the
controller holds of the loop.
-/

namespace Sotabots.Robot

open Machine

/-- Everything the winch and lock chain reads or writes besides its inputs. -/
@[ext] structure Winch where
  pressed : Bool
  winding : Bool
  latched : Latch
  log : List Event

namespace Winch

def lock1 (w : Winch) : Bool := outputOf .lock1 w.log

def lock2 (w : Winch) : Bool := outputOf .lock2 w.log

def Locked (w : Winch) : Prop := w.lock1 = false ∧ w.lock2 = true

def site (w : Winch) : Option WenchSite := (wenchOf w.log).map Prod.fst

def branch (w : Winch) (r : WinchReads) : WinchBranch :=
  winchBranch w.pressed w.winding r

def step (w : Winch) (r : WinchReads) : Winch where
  pressed := nextPressed (w.branch r) w.pressed
  winding := nextWinding (w.branch r) w.winding
  latched := nextLatched (w.branch r) w.latched
  log := winchCalls (w.branch r) r ++ w.log

end Winch

def State.winch (s : State) : Winch where
  pressed := s.pressed
  winding := s.winding
  latched := s.latched
  log := s.deviceLog .winch

theorem winch_loopBody (s : State) (r : Reads) :
    (loopBody s r).winch = s.winch.step r.winch := by
  have hlog := deviceLog_loopBody s r .winch
  rw [loopBody_eq] at hlog ⊢
  ext1
  · rfl
  · rfl
  · rfl
  · exact hlog

theorem winch_sampledBody (s : State) (i : Inputs) :
    (sampledBody s i).winch = s.winch.step i.winch.reads :=
  winch_loopBody s i.reads

/-! ## Outputs through the device log -/

theorem solenoidValue_of_device_ne {p : Solenoid} {e : Event} (h : e.device ≠ p.device) :
    e.solenoidValue p = none := by
  cases e with
  | solenoid q on =>
      have hne : q ≠ p := by
        rintro rfl
        exact h rfl
      simp [Event.solenoidValue, hne]
  | _ => rfl

theorem wenchCommand_of_device_ne {e : Event} (h : e.device ≠ .winch) :
    e.wenchCommand = none := by
  cases e with
  | wench site c => exact absurd rfl h
  | _ => rfl

theorem findSome?_deviceCalls {β : Type} {f : Event → Option β} {d : Device}
    (h : ∀ e, e.device ≠ d → f e = none) (log : List Event) :
    (deviceCalls d log).findSome? f = log.findSome? f := by
  unfold deviceCalls
  induction log with
  | nil => rfl
  | cons e log ih =>
      by_cases hd : e.device = d
      · rw [List.filter_cons_of_pos (by simpa using hd), List.findSome?_cons,
          List.findSome?_cons, ih]
      · rw [List.filter_cons_of_neg (by simpa using hd), List.findSome?_cons, h e hd, ih]

theorem outputOf_deviceCalls (p : Solenoid) (log : List Event) :
    outputOf p (deviceCalls p.device log) = outputOf p log := by
  unfold outputOf
  rw [findSome?_deviceCalls fun _ he => solenoidValue_of_device_ne he]

theorem wenchOf_deviceCalls (log : List Event) :
    wenchOf (deviceCalls .winch log) = wenchOf log :=
  findSome?_deviceCalls (fun _ he => wenchCommand_of_device_ne he) log

theorem lock1_winch (s : State) : s.winch.lock1 = s.lock1 :=
  outputOf_deviceCalls .lock1 s.log

theorem lock2_winch (s : State) : s.winch.lock2 = s.lock2 :=
  outputOf_deviceCalls .lock2 s.log

theorem wench_winch (s : State) : wenchOf s.winch.log = s.wench :=
  wenchOf_deviceCalls s.log

theorem locked_winch (s : State) : s.winch.Locked ↔ s.Locked := by
  unfold Winch.Locked State.Locked
  rw [lock1_winch, lock2_winch]

theorem site_winch (s : State) : s.winch.site = s.wenchSite := by
  unfold Winch.site State.wenchSite State.wench State.winch State.deviceLog
  rw [wenchOf_deviceCalls]

/-! ## What a branch is taken on -/

/-- What must hold for a branch to be the one taken. -/
def WinchBranch.Guard (b : WinchBranch) (pressed winding : Bool) (r : WinchReads) : Prop :=
  match b with
  | .pull => r.pullButton = true ∧ r.pullLimit = true ∧ pressed = false
  | .latch => r.latchLimit = false ∧ r.latchButton = true
  | .wind => r.windLimit = false ∧ r.windEncoder < windCount ∧ winding = true
  | .trigger =>
      r.trigger = true ∧ ¬ (r.windLimit = false ∧ r.windEncoder < windCount ∧ winding = true)
  | .windComplete => pressed = true ∧ windCount ≤ r.stopEncoder
  | .manual => pressed = false
  | .hold => pressed = true ∧ r.stopEncoder < windCount

theorem guard_winchBranch (pressed winding : Bool) (r : WinchReads) :
    (winchBranch pressed winding r).Guard pressed winding r := by
  unfold winchBranch
  split_ifs with hpull hlatch hwind htrigger hstop hmanual
  · exact hpull
  · exact hlatch
  · exact hwind
  · exact ⟨htrigger, hwind⟩
  · exact hstop
  · exact hmanual
  · have hpressed : pressed = true := by simpa using hmanual
    exact ⟨hpressed, lt_of_not_ge fun h => hstop ⟨hpressed, h⟩⟩

theorem Winch.guard_of_branch {w : Winch} {r : WinchReads} {b : WinchBranch}
    (h : w.branch r = b) : b.Guard w.pressed w.winding r := by
  subst h
  exact guard_winchBranch w.pressed w.winding r

/-! ## What a pass does to the outputs -/

def nextLocked (b : WinchBranch) (locked : Prop) : Prop :=
  match b with
  | .latch | .wind | .windComplete => True
  | .trigger | .manual => False
  | .pull | .hold => locked

def nextSite (b : WinchBranch) (site : Option WenchSite) : Option WenchSite :=
  match b with
  | .pull => some .pull
  | .wind => some .wind
  | .trigger => some .trigger
  | .windComplete => some .windComplete
  | .manual => some .manual
  | .latch | .hold => site

theorem nextSite_none_inj {b b' : WinchBranch} {site : WenchSite}
    (h : nextSite b none = some site) (h' : nextSite b' none = some site) : b = b' := by
  have hsame : nextSite b none = nextSite b' none := h.trans h'.symm
  cases b <;> cases b' <;> simp [nextSite] at h h' hsame ⊢

/-- The last winch command after a branch, with the speed it carries. -/
def nextWench (b : WinchBranch) (r : WinchReads) (last : Option (WenchSite × MotorCommand)) :
    Option (WenchSite × MotorCommand) :=
  match b with
  | .pull => some (.pull, .set (-4 / 5))
  | .wind => some (.wind, .set (4 / 5))
  | .trigger => some (.trigger, .set r.triggerAxis)
  | .windComplete => some (.windComplete, .stopMotor)
  | .manual => some (.manual, .set r.manualAxis)
  | .latch | .hold => last

theorem Winch.locked_step (w : Winch) (r : WinchReads) :
    (w.step r).Locked ↔ nextLocked (w.branch r) w.Locked := by
  unfold Winch.Locked Winch.lock1 Winch.lock2 Winch.step
  cases w.branch r <;>
    simp [winchCalls, nextLocked, outputOf_cons, Event.solenoidValue]

theorem Winch.wench_step (w : Winch) (r : WinchReads) :
    wenchOf (w.step r).log = nextWench (w.branch r) r (wenchOf w.log) := by
  unfold Winch.step
  cases w.branch r <;>
    simp [winchCalls, nextWench, wenchOf_cons, Event.wenchCommand]

theorem Winch.site_step (w : Winch) (r : WinchReads) :
    (w.step r).site = nextSite (w.branch r) w.site := by
  unfold Winch.site Winch.step
  cases w.branch r <;>
    simp [winchCalls, nextSite, wenchOf_cons, Event.wenchCommand]

/-! ## The controller in a pass of the sampled loop -/

def branchOf (s : State) (i : Inputs) : WinchBranch :=
  winchBranch s.pressed s.winding i.winch.reads

def Took (b : WinchBranch) (it : Iteration State Inputs) : Prop :=
  branchOf it.pre it.input = b

instance (b : WinchBranch) (it : Iteration State Inputs) : Decidable (Took b it) :=
  inferInstanceAs (Decidable (_ = _))

theorem pressed_sampledBody (s : State) (i : Inputs) :
    (sampledBody s i).pressed = nextPressed (branchOf s i) s.pressed :=
  congrArg Winch.pressed (winch_sampledBody s i)

theorem winding_sampledBody (s : State) (i : Inputs) :
    (sampledBody s i).winding = nextWinding (branchOf s i) s.winding :=
  congrArg Winch.winding (winch_sampledBody s i)

theorem latched_sampledBody (s : State) (i : Inputs) :
    (sampledBody s i).latched = nextLatched (branchOf s i) s.latched :=
  congrArg Winch.latched (winch_sampledBody s i)

theorem locked_sampledBody (s : State) (i : Inputs) :
    (sampledBody s i).Locked ↔ nextLocked (branchOf s i) s.Locked := by
  rw [← locked_winch, winch_sampledBody, Winch.locked_step]
  unfold nextLocked Winch.branch branchOf
  rw [locked_winch]
  rfl

theorem wenchSite_sampledBody (s : State) (i : Inputs) :
    (sampledBody s i).wenchSite = nextSite (branchOf s i) s.wenchSite := by
  rw [← site_winch, winch_sampledBody, Winch.site_step, site_winch]
  rfl

theorem wench_sampledBody (s : State) (i : Inputs) :
    (sampledBody s i).wench = nextWench (branchOf s i) i.winch.reads s.wench := by
  rw [← wench_winch, winch_sampledBody, Winch.wench_step, wench_winch]
  rfl

theorem guard_branchOf {s : State} {i : Inputs} {b : WinchBranch} (h : branchOf s i = b) :
    b.Guard s.pressed s.winding i.winch.reads := by
  subst h
  exact guard_winchBranch s.pressed s.winding i.winch.reads

theorem branchOf_eq_pull_iff {s : State} {i : Inputs} :
    branchOf s i = .pull ↔
      i.winch.button2 = true ∧ i.winch.limSwitch = true ∧ s.pressed = false := by
  constructor
  · exact fun h => guard_branchOf h
  · exact fun h => if_pos h

end Sotabots.Robot
