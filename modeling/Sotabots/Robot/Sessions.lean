import Sotabots.Robot.AutonomousCalls
import Sotabots.Robot.Leds
/-!
# Invariants of whole sessions

A session strings `autonomous` and `operatorControl` together in any order, with
the fields carried from one to the next.  `Session.invariant` is the rule for
what holds throughout: it is enough to look at one return of `autonomous`, at the
entry of `operatorControl` and at one pass of its loop.
-/

namespace Sotabots.Robot

open Machine

/-- `I` holds where the period is entered and left, and at both ends of each of
its passes. -/
structure PeriodRun.Throughout (I : State → Prop) (p : PeriodRun) : Prop where
  entered : I p.entered
  left : I p.left
  passes : ∀ it ∈ p.passes, I it.pre ∧ I it.post

theorem Session.invariant {I : State → Prop}
    (hauto : ∀ {o s t}, I s → AutonomousReturns o s t → I t)
    (hentry : ∀ s, I s → I (teleopEntry s)) (hpass : ∀ s i, I s → I (sampledBody s i))
    {s : State} {session : List PeriodRun} (hsession : Session s session) (hs : I s) :
    ∀ p ∈ session, p.Throughout I := by
  have hperiod : ∀ p : PeriodRun, p.Valid → I p.entered → p.Throughout I := by
    intro p hvalid hentered
    obtain ⟨period, entered, left⟩ := p
    cases period with
    | autonomous o => exact ⟨hentered, hauto hentered hvalid, by simp [PeriodRun.passes]⟩
    | operatorControl inputs =>
        have hstart := hentry entered hentered
        refine ⟨hentered, ?_, invariant_of_step hstart hpass inputs⟩
        have hleft : left = operatorControl entered inputs := hvalid
        rw [hleft]
        exact history_invariant (C := fun _ => True) (I := fun _ t => I t) hstart
          (fun _ t i ht _ => hpass t i ht) inputs fun _ _ => trivial
  induction session generalizing s with
  | nil => simp
  | cons q rest ih =>
      obtain ⟨hentered, hvalid, hrest⟩ := hsession
      have hq := hperiod q hvalid (by rwa [hentered])
      exact List.forall_mem_cons.mpr ⟨hq, ih hrest hq.left⟩

theorem passes_eq_iterations (p : PeriodRun) :
    ∃ s inputs, p.passes = iterations sampledBody s inputs := by
  obtain ⟨period, entered, left⟩ := p
  cases period with
  | autonomous o => exact ⟨entered, [], rfl⟩
  | operatorControl inputs => exact ⟨teleopEntry entered, inputs, rfl⟩

theorem mk_of_mem_passes {p : PeriodRun} {it : Iteration State Inputs} (hit : it ∈ p.passes) :
    it = ⟨it.pre, it.input, sampledBody it.pre it.input⟩ := by
  obtain ⟨s, inputs, hpasses⟩ := passes_eq_iterations p
  rw [hpasses] at hit
  rw [← post_eq_step hit]

/-! ## The states of the winch chain -/

def State.LatchAccounted (s : State) : Prop :=
  s.latched = .latched → s.pressed = true ∨ s.winding = true

theorem latchAccounted_of_flags {s t : State} (hflags : t.flags = s.flags)
    (hs : s.LatchAccounted) : t.LatchAccounted := by
  simp only [State.flags, Prod.mk.injEq] at hflags
  unfold State.LatchAccounted
  rw [hflags.1, hflags.2.1, hflags.2.2]
  exact hs

theorem latchAccounted_sampledBody (s : State) (i : Inputs) (hs : s.LatchAccounted) :
    (sampledBody s i).LatchAccounted := by
  unfold State.LatchAccounted at *
  rw [pressed_sampledBody, winding_sampledBody, latched_sampledBody]
  cases hb : branchOf s i with
  | latch => exact fun _ => Or.inr rfl
  | wind => exact fun _ => Or.inl rfl
  | windComplete => exact fun _ => Or.inl (guard_branchOf hb).1
  | trigger => exact fun h => absurd h (by simp [nextLatched])
  | pull | manual | hold => exact hs

theorem Session.latchAccounted {session : List PeriodRun}
    (hsession : Session State.initial session) :
    ∀ p ∈ session, p.Throughout State.LatchAccounted :=
  hsession.invariant (fun hs h => latchAccounted_of_flags (flags_of_autonomousReturns h) hs)
    (fun _ hs => latchAccounted_of_flags (by simp [teleopEntry]) hs) latchAccounted_sampledBody
    (by simp [State.LatchAccounted, State.initial])

/-! ### The three flags as a finite machine -/

def nextFlags (f : Bool × Bool × Latch) (w : WinchSample) : Bool × Bool × Latch :=
  let b := winchBranch f.1 f.2.1 w.reads
  (nextPressed b f.1, nextWinding b f.2.1, nextLatched b f.2.2)

theorem flags_sampledBody (s : State) (i : Inputs) :
    (sampledBody s i).flags = nextFlags s.flags i.winch := by
  unfold State.flags
  rw [pressed_sampledBody, winding_sampledBody, latched_sampledBody]
  rfl

theorem flags_run (s : State) (inputs : List Inputs) :
    (run sampledBody s inputs).flags = run nextFlags s.flags (inputs.map Inputs.winch) :=
  run_map flags_sampledBody inputs

theorem flags_operatorControl (s : State) (inputs : List Inputs) :
    (operatorControl s inputs).flags = run nextFlags s.flags (inputs.map Inputs.winch) := by
  have hentry : (teleopEntry s).flags = s.flags := by simp [teleopEntry]
  rw [operatorControl, flags_run, hentry]

def latchPass : WinchSample := ⟨true, false, 0, false, 0⟩

def windPass : WinchSample := ⟨false, false, 0, false, 0⟩

def paidOutPass : WinchSample := ⟨false, false, 560, false, 0⟩

def triggerPass : WinchSample := ⟨false, true, 0, true, 0⟩

/-- The flags in which some session from power-on leaves some period. -/
def FlagsReachable (f : Bool × Bool × Latch) : Prop :=
  ∃ session, Session State.initial session ∧ ∃ p ∈ session, p.left.flags = f

theorem flagsReachable_run (samples : List WinchSample) :
    FlagsReachable (run nextFlags State.initial.flags samples) := by
  refine ⟨[⟨.operatorControl (samples.map Inputs.ofWinch), State.initial,
    operatorControl State.initial (samples.map Inputs.ofWinch)⟩], ⟨rfl, rfl, trivial⟩, _,
    List.mem_singleton_self _, ?_⟩
  have hsamples : (samples.map Inputs.ofWinch).map Inputs.winch = samples := by
    rw [List.map_map]
    exact List.map_id samples
  calc (operatorControl State.initial (samples.map Inputs.ofWinch)).flags
      = run nextFlags State.initial.flags ((samples.map Inputs.ofWinch).map Inputs.winch) :=
        flags_operatorControl _ _
    _ = run nextFlags State.initial.flags samples := by rw [hsamples]

/-- Of the eight combinations of `pressed`, `winding` and `latched`, a session can
leave all but one: `latched` never stands alone. -/
theorem flagsReachable_iff (f : Bool × Bool × Latch) :
    FlagsReachable f ↔ f ≠ (false, false, .latched) := by
  constructor
  · rintro ⟨session, hsession, p, hp, rfl⟩ halone
    have haccounted := (hsession.latchAccounted p hp).left
    simp only [State.flags, Prod.mk.injEq] at halone
    rcases haccounted halone.2.2 with h | h
    · rw [halone.1] at h
      cases h
    · rw [halone.2.1] at h
      cases h
  · intro hne
    obtain ⟨pressed, winding, l⟩ := f
    cases l with
    | latched =>
        cases pressed <;> cases winding
        · exact absurd rfl hne
        · exact flagsReachable_run [latchPass]
        · exact flagsReachable_run [latchPass, windPass, paidOutPass]
        · exact flagsReachable_run [latchPass, windPass]
    | unlatched =>
        cases pressed <;> cases winding
        · exact flagsReachable_run []
        · exact flagsReachable_run [latchPass, triggerPass]
        · exact flagsReachable_run [latchPass, triggerPass, windPass, paidOutPass]
        · exact flagsReachable_run [latchPass, triggerPass, windPass]

/-! ### Back to the start -/

/-- The limit switch closed at a count below 560, then at a count of 560 or more,
both with the winch buttons up, and then the trigger with the switch open. -/
structure Homing (first second third : Inputs) : Prop where
  first_up : first.winch.button2 = false ∧ first.winch.trigger = false
  first_closed : first.winch.limSwitch = false
  first_count : first.winch.winchEncoder < windCount
  second_up : second.winch.button2 = false ∧ second.winch.trigger = false
  second_count : windCount ≤ second.winch.winchEncoder
  third_trigger : third.winch.trigger = true ∧ third.winch.button2 = false
  third_open : third.winch.limSwitch = true

theorem nextFlags_first {w : WinchSample} (hbutton : w.button2 = false)
    (htrigger : w.trigger = false) (hclosed : w.limSwitch = false)
    (hcount : w.winchEncoder < windCount) (pressed winding : Bool) (l : Latch) :
    nextFlags (pressed, winding, l) w = (pressed || winding, winding, l) := by
  have hstop : ¬ windCount ≤ w.winchEncoder := not_le.mpr hcount
  cases pressed <;> cases winding <;>
    simp [nextFlags, winchBranch, WinchSample.reads, hbutton, htrigger, hclosed, hcount, hstop,
      nextPressed, nextWinding, nextLatched]

theorem nextFlags_second {w : WinchSample} (hbutton : w.button2 = false)
    (htrigger : w.trigger = false) (hcount : windCount ≤ w.winchEncoder)
    (pressed winding : Bool) (l : Latch) :
    nextFlags (pressed, winding, l) w = (pressed, !pressed && winding, l) := by
  have hwind : ¬ w.winchEncoder < windCount := not_lt.mpr hcount
  cases pressed <;> cases winding <;>
    simp [nextFlags, winchBranch, WinchSample.reads, hbutton, htrigger, hcount, hwind,
      nextPressed, nextWinding, nextLatched]

theorem nextFlags_third {w : WinchSample} (hbutton : w.button2 = false)
    (htrigger : w.trigger = true) (hopen : w.limSwitch = true) (pressed winding : Bool)
    (l : Latch) : nextFlags (pressed, winding, l) w = (false, winding, .unlatched) := by
  simp [nextFlags, winchBranch, WinchSample.reads, hbutton, htrigger, hopen,
    nextPressed, nextWinding, nextLatched]

/-- The same three passes bring the chain back to its start from wherever it is. -/
theorem shotOver_of_homing {first second third : Inputs} (h : Homing first second third)
    (s : State) : (run sampledBody s [first, second, third]).ShotOver := by
  rw [shotOver_iff_flags, flags_run, State.flags]
  generalize s.pressed = pressed, s.winding = winding, s.latched = l
  calc run nextFlags (pressed, winding, l) [first.winch, second.winch, third.winch]
      = nextFlags (nextFlags (pressed || winding, winding, l) second.winch) third.winch := by
        rw [run_cons, nextFlags_first h.first_up.1 h.first_up.2 h.first_closed h.first_count]
        rfl
    _ = nextFlags (pressed || winding, !(pressed || winding) && winding, l) third.winch := by
        rw [nextFlags_second h.second_up.1 h.second_up.2 h.second_count]
    _ = (false, !(pressed || winding) && winding, .unlatched) :=
        nextFlags_third h.third_trigger.2 h.third_trigger.1 h.third_open _ _ _
    _ = (false, false, .unlatched) := by
        cases pressed <;> cases winding <;> rfl

theorem shotOver_of_homing_latched :
    ¬ latchedRobot.ShotOver ∧
      (run sampledBody latchedRobot
        [.ofWinch windPass, .ofWinch paidOutPass, .ofWinch triggerPass]).ShotOver := by
  refine ⟨by decide +kernel, shotOver_of_homing ?_ latchedRobot⟩
  constructor <;> decide +kernel

/-! ## Who drives the winch motor -/

/-- The last winch command comes from the automatic wind or its stop only while
`pressed` is set, and from the sticks or the pull only while it is not.  The stops
at the entry of a period say nothing about `pressed`. -/
structure State.WinchOwned (s : State) : Prop where
  automatic : s.wenchSite = some .wind ∨ s.wenchSite = some .windComplete → s.pressed = true
  manual : s.wenchSite = some .pull ∨ s.wenchSite = some .trigger ∨ s.wenchSite = some .manual →
    s.pressed = false

theorem winchOwned_sampledBody (s : State) (i : Inputs) (hs : s.WinchOwned) :
    (sampledBody s i).WinchOwned := by
  have hsite := wenchSite_sampledBody s i
  have hpressed := pressed_sampledBody s i
  cases hb : branchOf s i with
  | pull =>
      have hguard := guard_branchOf hb
      rw [hb] at hsite hpressed
      constructor <;> simp [hsite, hpressed, nextSite, nextPressed, hguard.2.2]
  | wind =>
      rw [hb] at hsite hpressed
      constructor <;> simp [hsite, hpressed, nextSite, nextPressed]
  | trigger =>
      rw [hb] at hsite hpressed
      constructor <;> simp [hsite, hpressed, nextSite, nextPressed]
  | windComplete =>
      have hguard := guard_branchOf hb
      rw [hb] at hsite hpressed
      constructor <;> simp [hsite, hpressed, nextSite, nextPressed, hguard.1]
  | manual =>
      have hguard : s.pressed = false := guard_branchOf hb
      rw [hb] at hsite hpressed
      constructor <;> simp [hsite, hpressed, nextSite, nextPressed, hguard]
  | latch | hold =>
      -- neither branch writes the motor or `pressed`
      rw [hb] at hsite hpressed
      constructor
      · rw [hsite, hpressed]
        exact hs.automatic
      · rw [hsite, hpressed]
        exact hs.manual

/-- In any sequence of periods, with `pressed` carried over from one to the next,
the stick never drives the winch while `pressed` is set, and the automatic wind
never runs while it is not. -/
theorem Session.winchOwned {session : List PeriodRun} (hsession : Session State.initial session) :
    ∀ p ∈ session, p.Throughout State.WinchOwned := by
  have hstop : ∀ (s : State) (site : WenchSite) (c : MotorCommand),
      s.wench = some (site, c) → site = .teleopEntry ∨ site = .autonomousEntry → s.WinchOwned := by
    intro s site c hwench hsite
    have hlast : s.wenchSite = some site := by rw [State.wenchSite, hwench, Option.map_some]
    constructor <;> rcases hsite with rfl | rfl <;> simp [hlast]
  refine hsession.invariant ?_ ?_ winchOwned_sampledBody ?_
  · intro o s t _ hreturns
    exact hstop t _ _ (wench_of_autonomousReturns hreturns) (Or.inr rfl)
  · intro s _
    refine hstop (teleopEntry s) .teleopEntry (.set 0) ?_ (Or.inl rfl)
    simp [State.wench, teleopEntry, wenchOf_cons, Event.wenchCommand]
  · constructor <;> simp [State.wenchSite, State.wench, State.initial, wenchOf]

theorem winchOwned_latched :
    Session State.initial latchedSession ∧ latchedRobot.WinchOwned ∧
      (afterTicks latchedRobot).WinchOwned := by
  have hsession : Session State.initial latchedSession :=
    ⟨rfl, rfl, rfl, autonomousReturns_afterTicks (by decide +kernel), trivial⟩
  have howned := Session.winchOwned hsession
    ⟨.autonomous tickOracle, latchedRobot, afterTicks latchedRobot⟩ (by simp [latchedSession])
  exact ⟨hsession, howned.entered, howned.left⟩

/-! ## The LED modes -/

theorem modeOn_of_deviceLog {s t : State} (h : t.deviceLog .leds = s.deviceLog .leds)
    (j : Fin 5) : t.modeOn j = s.modeOn j := by
  have hleds : ∀ log : List Event, (deviceCalls .leds log).findSome? (Event.modeValue j) =
      log.findSome? (Event.modeValue j) :=
    findSome?_deviceCalls fun _ he => modeValue_of_device_ne he
  unfold State.modeOn modeOf
  rw [← hleds t.log, ← hleds s.log]
  exact congrArg (fun log => (log.findSome? (Event.modeValue j)).getD false) h

theorem indexTracked_of_deviceLog {s t : State} (hindex : t.modeIndex = s.modeIndex)
    (hlog : t.deviceLog .leds = s.deviceLog .leds) (hs : IndexTracked s) : IndexTracked t := by
  unfold IndexTracked LitOnly at *
  rw [hindex]
  simpa only [modeOn_of_deviceLog hlog] using hs

theorem Session.indexTracked {session : List PeriodRun}
    (hsession : Session State.initial session) :
    ∀ p ∈ session, p.Throughout IndexTracked := by
  refine hsession.invariant ?_ ?_ (fun _ i hs => indexTracked_sampledBody hs i) ?_
  · intro o s t hs hreturns
    refine indexTracked_of_deviceLog ?_ (deviceLog_of_autonomousReturns hreturns (Or.inl rfl)) hs
    rw [fields_of_autonomousReturns hreturns]
  · intro s hs
    refine indexTracked_of_deviceLog (by simp [teleopEntry]) ?_ hs
    simp [State.deviceLog, deviceCalls, teleopEntry, Event.device, Encoder.device]
  · exact Or.inl (by decide)

end Sotabots.Robot
