import Sotabots.Robot.AutonomousHalts
import Sotabots.Robot.Periods
import Mathlib.Tactic.NormNum
/-!
# The shot of `autonomous`

The period is meant to end in a shot from standstill: drive to the mark, let the
robot settle until the clock reads 1.8 s, release the lock.  The order is only in
the clock readings, and each loop takes its own.  If the first reading after the
last reset is already past 1.8 s, the settling loop does not run and the lock
opens on the drive command of the loop before.  If the readings step over the
window from 1.8 s to 2 s, it does not open at all.  `orderedShot_iff` says that
nothing else can go wrong.
-/

namespace Sotabots.Robot

open Machine

/-! ## What the calls of a period say -/

def Event.driveCommand : Event → Option DriveCommand
  | .arcadeDrive c => some c
  | _ => none

def StandsStill (calls : List Event) : Prop :=
  calls.findSome? Event.driveCommand = some (.values 0 0)

/-- The clock has been read at 1.8 s or later since the last driving command. -/
def ClockSettled (calls : List Event) : Prop :=
  ∃ seconds, 9 / 5 ≤ seconds ∧
    .timerGet seconds ∈ calls.takeWhile fun e => e ≠ .arcadeDrive (.values (-4 / 5) 0)

def OrderedWrites (calls : List Event) : Prop :=
  ∀ later earlier, calls = later ++ .solenoid .lock1 true :: earlier →
    StandsStill earlier ∧ ClockSettled earlier

/-- Every release among the calls from `s` to `t` was made standing still and
settled, and the lock is released at the end. -/
def OrderedShot (s t : State) : Prop :=
  ∃ calls, t.log = calls ++ s.log ∧ OrderedWrites calls ∧ t.Released

theorem standsStill_cons (e : Event) (calls : List Event) :
    StandsStill (e :: calls) ↔
      e.driveCommand = some (.values 0 0) ∨ (e.driveCommand = none ∧ StandsStill calls) := by
  unfold StandsStill
  rw [List.findSome?_cons]
  cases e.driveCommand <;> simp

theorem orderedWrites_nil : OrderedWrites [] := by
  intro later earlier h
  simp at h

theorem orderedWrites_cons (e : Event) (calls : List Event) :
    OrderedWrites (e :: calls) ↔
      (e = .solenoid .lock1 true → StandsStill calls ∧ ClockSettled calls) ∧
        OrderedWrites calls := by
  constructor
  · intro h
    refine ⟨fun he => h [] calls (by rw [he]; rfl), ?_⟩
    intro later earlier hcalls
    exact h (e :: later) earlier (by rw [hcalls]; rfl)
  · intro h later earlier hcalls
    cases later with
    | nil =>
        simp only [List.nil_append, List.cons.injEq] at hcalls
        obtain ⟨he, rfl⟩ := hcalls
        exact h.1 he
    | cons x later =>
        simp only [List.cons_append, List.cons.injEq] at hcalls
        exact h.2 later earlier hcalls.2

/-! ## How far a period has come -/

/-- What the calls since `s` amount to: whether the releases among them were in
order, and whether the robot has last been told to stand still. -/
def Progress (s : State) (ordered still : Prop) (r : State) : Prop :=
  ∃ calls, r.log = calls ++ s.log ∧ (OrderedWrites calls ↔ ordered) ∧
    (StandsStill calls ↔ still)

namespace Progress

variable {s r : State} {ordered still : Prop} {e : Event}

theorem emit (h : Progress s ordered still r) (he : e ≠ .solenoid .lock1 true) :
    Progress s ordered
      (e.driveCommand = some (.values 0 0) ∨ (e.driveCommand = none ∧ still)) (r.emit e) := by
  obtain ⟨calls, hlog, hordered, hstill⟩ := h
  refine ⟨e :: calls, by rw [State.log_emit, hlog]; rfl, ?_, ?_⟩
  · rw [orderedWrites_cons, hordered]
    simp [he]
  · rw [standsStill_cons, hstill]

theorem emit_other (h : Progress s ordered still r) (he : e ≠ .solenoid .lock1 true)
    (hdrive : e.driveCommand = none) : Progress s ordered still (r.emit e) := by
  simpa [hdrive] using h.emit he

theorem emit_stop (h : Progress s ordered still r) :
    Progress s ordered True (r.emit (.arcadeDrive (.values 0 0))) := by
  simpa [Event.driveCommand] using h.emit (e := .arcadeDrive (.values 0 0)) (by simp)

theorem emit_driving (h : Progress s ordered still r) {c : DriveCommand} (hc : c ≠ .values 0 0) :
    Progress s ordered False (r.emit (.arcadeDrive c)) := by
  simpa [Event.driveCommand, hc] using h.emit (e := .arcadeDrive c) (by simp)

theorem emit_release (h : Progress s ordered still r) {x y : Rat} (hx : 9 / 5 ≤ x) :
    Progress s (ordered ∧ still) still
      (((r.emit (.timerGet x)).emit (.timerGet y)).emit (.solenoid .lock1 true)) := by
  obtain ⟨calls, hlog, hordered, hstill⟩ := h
  have hsettled : ClockSettled (.timerGet y :: .timerGet x :: calls) :=
    ⟨x, hx, by simp⟩
  refine ⟨.solenoid .lock1 true :: .timerGet y :: .timerGet x :: calls, ?_, ?_, ?_⟩
  · simp [hlog]
  · simp [orderedWrites_cons, standsStill_cons, Event.driveCommand, hsettled, hordered, hstill]
    tauto
  · simp [standsStill_cons, Event.driveCommand, hstill]

end Progress

theorem progress_iterate {s : State} {ordered still still' : Prop} {L : Loop Auto}
    (hpass : ∀ u still, Progress s ordered still u.robot →
      Progress s ordered still' (L.next u).robot)
    {a : Auto} (h : Progress s ordered still a.robot) (k : ℕ) :
    Progress s ordered (if k = 0 then still else still') (L.next^[k] a).robot := by
  induction k with
  | zero => exact h
  | succ k ih =>
      rw [Function.iterate_succ_apply']
      simpa using hpass _ _ ih

theorem locked_emit {r : State} {e : Event} (h : r.Locked) (hlock1 : e ≠ .solenoid .lock1 true)
    (hlock2 : e ≠ .solenoid .lock2 false) : (r.emit e).Locked := by
  obtain ⟨h1, h2⟩ := h
  unfold State.Locked State.lock1 State.lock2 at *
  rw [State.output_emit, State.output_emit, h1, h2]
  cases e with
  | solenoid p on => cases p <;> cases on <;> simp_all [Event.solenoidValue]
  | _ => exact ⟨rfl, rfl⟩

/-! ## The loops before the shot -/

/-- A point before the shot: no release so far, the lock engaged, and the clock at
its `ticks`-th reading after its `epoch`-th reset. -/
structure Approach (s : State) (still : Prop) (epoch ticks : ℕ) (a : Auto) : Prop where
  epoch_eq : a.epoch = epoch
  ticks_eq : a.ticks = ticks
  progress : Progress s True still a.robot
  locked : a.robot.Locked

theorem approach_autonomousEntry (s : State) : Approach s True 1 0 (autonomousEntry s) := by
  refine ⟨rfl, rfl, ?_, ?_⟩
  · refine ⟨[.arcadeDrive (.values 0 0), .setSafetyEnabled false, .encoderStart .drive1,
      .encoderReset .drive1, .timerStart, .timerReset, .solenoid .lock2 true,
      .solenoid .lock1 false, .wench .autonomousEntry (.set 0), .solenoid .intake2 false,
      .solenoid .intake1 true, .encoderStart .winchEncoder, .compressorStart], rfl, ?_, ?_⟩
    · simp [orderedWrites_cons, orderedWrites_nil]
    · simp [standsStill_cons, Event.driveCommand]
  · simp [autonomousEntry, State.Locked, State.lock1, State.lock2, State.output_emit,
      Event.solenoidValue]

theorem PollsClock.exits_isLeast {o : Oracle} {bound : Rat} {L : Loop Auto}
    (h : PollsClock o bound L) {a t : Auto} (hexit : L.Exits a t) :
    ∃ k, t = (L.next^[k] a).timeGet o ∧
      IsLeast {n | a.ticks ≤ n ∧ bound ≤ o.time.reading a.epoch n} (a.ticks + k) := by
  obtain ⟨k, hleast, hout⟩ := hexit.isLeast
  simp only [h.test_iterate, decide_eq_false_iff_not, not_lt] at hleast
  refine ⟨k, ?_, ⟨by omega, hleast.1⟩, ?_⟩
  · rw [← hout, h.test_eq]
  · rintro n ⟨hn, hreached⟩
    have hlater : k ≤ n - a.ticks := by
      apply hleast.2
      rwa [← Nat.add_sub_cancel' hn] at hreached
    omega

structure StopsDrive (L : Loop Auto) : Prop where
  progress_next : ∀ {s ordered still u}, Progress s ordered still u.robot →
    Progress s ordered True (L.next u).robot
  locked_next : ∀ {u}, u.robot.Locked → (L.next u).robot.Locked

theorem stopsDrive_waitLoop (o : Oracle) : StopsDrive (waitLoop o) := by
  constructor
  · intro s ordered still u h
    have hread := h.emit_other (e := .timerGet (u.now o)) (by simp) rfl
    have hlock1 := hread.emit_other (e := .solenoid .lock1 false) (by simp) rfl
    have hlock2 := hlock1.emit_other (e := .solenoid .lock2 true) (by simp) rfl
    exact hlock2.emit_stop
  · intro u h
    have hread := locked_emit (e := .timerGet (u.now o)) h (by simp) (by simp)
    have hlock1 := locked_emit (e := .solenoid .lock1 false) hread (by simp) (by simp)
    have hlock2 := locked_emit (e := .solenoid .lock2 true) hlock1 (by simp) (by simp)
    exact locked_emit (e := .arcadeDrive (.values 0 0)) hlock2 (by simp) (by simp)

theorem stopsDrive_settleLoop (o : Oracle) : StopsDrive (settleLoop o) := by
  constructor
  · intro s ordered still u h
    have hread := h.emit_other (e := .timerGet (u.now o)) (by simp) rfl
    exact hread.emit_stop.emit_other (e := .encoderReset .drive1) (by simp) rfl
  · intro u h
    have hread := locked_emit (e := .timerGet (u.now o)) h (by simp) (by simp)
    have hstop := locked_emit (e := .arcadeDrive (.values 0 0)) hread (by simp) (by simp)
    exact locked_emit (e := .encoderReset .drive1) hstop (by simp) (by simp)

section Loops

variable {o : Oracle} {s : State} {still : Prop} {epoch ticks : ℕ} {a t : Auto}

/-- Where a clock loop leaves a period: at the first reading that reaches the
bound, and standing still unless that is the loop's first reading. -/
theorem Approach.polled (h : Approach s still epoch ticks a) {bound : Rat} {L : Loop Auto}
    (hpolls : PollsClock o bound L) (hstops : StopsDrive L) (hexit : L.Exits a t) :
    ∃ n, IsLeast {n | ticks ≤ n ∧ bound ≤ o.time.reading epoch n} n ∧
      Approach s (n = ticks → still) epoch (n + 1) t := by
  obtain ⟨k, rfl, hleast⟩ := hpolls.exits_isLeast hexit
  have hcounters := hpolls.counters_iterate a k
  rw [h.epoch_eq, h.ticks_eq] at hleast hcounters
  refine ⟨ticks + k, hleast, hcounters.1, congrArg (· + 1) hcounters.2, ?_, ?_⟩
  · have hpasses := progress_iterate (fun u _ hu => hstops.progress_next hu) h.progress k
    have hread := hpasses.emit_other
      (e := .timerGet ((L.next^[k] a).now o)) (by simp) rfl
    have hstill : (if k = 0 then still else True) = (ticks + k = ticks → still) := by
      by_cases hk : k = 0 <;> simp [hk]
    rw [hstill] at hread
    exact hread
  · have hpasses : (L.next^[k] a).robot.Locked :=
      Function.Iterate.rec (fun u : Auto => u.robot.Locked) h.locked (fun _ => hstops.locked_next) k
    exact locked_emit hpasses (by simp) (by simp)

theorem counters_iterate_driveLoop (o : Oracle) (a : Auto) (k : ℕ) :
    ((driveLoop o).next^[k] a).epoch = a.epoch + k ∧
      ((driveLoop o).next^[k] a).ticks = if k = 0 then a.ticks else 0 := by
  induction k with
  | zero => exact ⟨rfl, rfl⟩
  | succ k ih =>
      rw [Function.iterate_succ_apply']
      refine ⟨?_, rfl⟩
      change ((driveLoop o).next^[k] a).epoch + 1 = _
      rw [ih.1]
      omega

theorem progress_next_driveLoop {ordered : Prop} {u : Auto}
    (h : Progress s ordered still u.robot) :
    Progress s ordered False ((driveLoop o).next u).robot := by
  have hmoving : DriveCommand.values (-4 / 5) 0 ≠ .values 0 0 := by decide +kernel
  have hprint := (h.emit_driving hmoving).emit_other
    (e := .println (o.drive (u.reads + 1))) (by simp) rfl
  exact hprint.emit_other (e := .timerReset) (by simp) rfl

theorem locked_next_driveLoop {u : Auto} (h : u.robot.Locked) :
    ((driveLoop o).next u).robot.Locked := by
  have hdrive := locked_emit (e := .arcadeDrive (.values (-4 / 5) 0)) h (by simp) (by simp)
  have hprint := locked_emit (e := .println (o.drive (u.reads + 1))) hdrive (by simp) (by simp)
  exact locked_emit (e := .timerReset) hprint (by simp) (by simp)

theorem Approach.driven (h : Approach s True epoch ticks a) (hreads : a.reads = 0)
    (hexit : (driveLoop o).Exits a t) :
    ∃ k, IsLeast {k | o.drive (2 * k) ≤ -3400} k ∧
      Approach s (k = 0) (epoch + k) (if k = 0 then ticks else 0) t := by
  obtain ⟨k, hleast, rfl⟩ := hexit.isLeast
  simp only [test_iterate_driveLoop, hreads, Nat.zero_add] at hleast
  have hcounters := counters_iterate_driveLoop o a k
  rw [h.epoch_eq, h.ticks_eq] at hcounters
  refine ⟨k, hleast, hcounters.1, hcounters.2, ?_, ?_⟩
  · have hpasses := progress_iterate (fun _ _ hu => progress_next_driveLoop (o := o) hu)
      h.progress k
    have hstill : (if k = 0 then True else False) = (k = 0) := by
      by_cases hk : k = 0 <;> simp [hk]
    rw [hstill] at hpasses
    exact hpasses
  · exact Function.Iterate.rec (fun u : Auto => u.robot.Locked) h.locked
      (fun _ => locked_next_driveLoop) k

theorem Approach.emit (h : Approach s still epoch ticks a) {e : Event}
    (hdrive : e.driveCommand = none) (hlock1 : e ≠ .solenoid .lock1 true)
    (hlock2 : e ≠ .solenoid .lock2 false) : Approach s still epoch ticks (a.emit e) :=
  ⟨h.epoch_eq, h.ticks_eq, h.progress.emit_other hlock1 hdrive, locked_emit h.locked hlock1 hlock2⟩

theorem Approach.shown (h : Approach s still epoch ticks a) :
    Approach s still epoch ticks (showDetected o a) := by
  have hshow : ∀ {b}, Approach s still epoch ticks b → ∀ key value,
      Approach s still epoch ticks (b.emit (.putString key value)) :=
    fun hb key value => hb.emit rfl (by simp) (by simp)
  have hprint : ∀ line, Approach s still epoch ticks (a.emit (.printLine line)) :=
    fun line => h.emit rfl (by simp) (by simp)
  simp only [showDetected]
  cases (Network.listenCoor o.link).printed with
  | none => split_ifs <;> exact hshow h _ _
  | some line => split_ifs <;> exact hshow (hprint line) _ _

end Loops

/-- The counts at which the loops before the shot are left: the first reading of
0.5 s, the first test at the mark, and the first reading of 1.8 s after that.  A
drive loop without a pass does not restart the clock, and the readings go on. -/
structure Milestones (o : Oracle) (waited driven settled : ℕ) : Prop where
  wait : IsLeast {n | 1 / 2 ≤ o.time.reading 1 n} waited
  drive : IsLeast {k | o.drive (2 * k) ≤ -3400} driven
  settle : IsLeast {n | (driven = 0 → waited < n) ∧ 9 / 5 ≤ o.time.reading (driven + 1) n} settled

section Shot

variable {o : Oracle} {s : State} {still ordered : Prop} {epoch ticks : ℕ} {a t : Auto}

theorem approach_settled {waited driven settled : Auto}
    (hwait : (waitLoop o).Exits (autonomousEntry s) waited)
    (hdrive : (driveLoop o).Exits (showDetected o waited) driven)
    (hsettle : (settleLoop o).Exits driven settled) :
    ∃ n k m, Milestones o n k m ∧ Approach s (0 < m) (k + 1) (m + 1) settled := by
  obtain ⟨n, hn, hwaited⟩ := (approach_autonomousEntry s).polled
    (pollsClock_waitLoop o) (stopsDrive_waitLoop o) hwait
  simp only [implies_true, zero_le, true_and] at hn hwaited
  obtain ⟨k, hk, hdriven⟩ :=
    (Approach.shown (o := o) hwaited).driven (reads_of_waitLoop hwait) hdrive
  obtain ⟨m, hm, hsettled⟩ := hdriven.polled
    (pollsClock_settleLoop o) (stopsDrive_settleLoop o) hsettle
  rw [Nat.add_comm 1 k] at hm hsettled
  have hfrom : ∀ j, (if k = 0 then n + 1 else 0) ≤ j ↔ (k = 0 → n < j) := by
    intro j
    by_cases hzero : k = 0
    · rw [if_pos hzero]
      simp only [hzero, true_implies]
      omega
    · simp [hzero]
  simp only [hfrom] at hm
  have hstill : (m = (if k = 0 then n + 1 else 0) → k = 0) = (0 < m) := by
    have hafter := hm.1.1
    rw [eq_iff_iff]
    by_cases hzero : k = 0
    · simp only [hzero, implies_true, true_iff]
      exact lt_of_le_of_lt (Nat.zero_le n) (hafter hzero)
    · simp only [hzero, if_false, imp_false]
      exact Nat.pos_iff_ne_zero.symm
  rw [hstill] at hsettled
  exact ⟨n, k, m, ⟨hn, hk, hm⟩, hsettled⟩

/-! ## The shot -/

theorem released_emit_iff {r : State} {e : Event} (hlock1 : e.solenoidValue .lock1 = none)
    (hlock2 : e.solenoidValue .lock2 = none) : (r.emit e).Released ↔ r.Released := by
  unfold State.Released State.lock1 State.lock2
  rw [State.output_emit, State.output_emit, hlock1, hlock2]
  rfl

theorem Progress.orderedShot_iff_released {r : State} (h : Progress s ordered still r) :
    OrderedShot s r ↔ ordered ∧ r.Released := by
  obtain ⟨calls, hlog, hordered, -⟩ := h
  constructor
  · rintro ⟨calls', hlog', hwrites, hreleased⟩
    have hcalls : calls' = calls := List.append_cancel_right (hlog'.symm.trans hlog)
    rw [hcalls] at hwrites
    exact ⟨hordered.mp hwrites, hreleased⟩
  · intro h
    exact ⟨calls, hlog, hordered.mpr h.1, h.2⟩

theorem shootLoop_pass (h : Progress s ordered still a.robot)
    (htest : ((shootLoop o).test a).1 = true) :
    Progress s (ordered ∧ still) True ((shootLoop o).next a).robot ∧
      ((shootLoop o).next a).robot.Released := by
  have hlate := late_of_test_shootLoop htest
  rw [Loop.next, test_shootLoop_of_late hlate]
  constructor
  · have hrelease := h.emit_release (y := (a.timeGet o).now o) hlate
    have hlock2 := hrelease.emit_other (e := .solenoid .lock2 false) (by simp) rfl
    exact hlock2.emit_stop.emit_other (e := .encoderReset .drive1) (by simp) rfl
  · simp [shootLoop, State.Released, State.lock1, State.lock2, State.output_emit,
      Event.solenoidValue]

theorem test_shootLoop_keeps (h : Progress s ordered still a.robot) (hopen : a.robot.Released) :
    Progress s ordered still ((shootLoop o).test a).2.robot ∧
      ((shootLoop o).test a).2.robot.Released := by
  have hread := h.emit_other (e := .timerGet (a.now o)) (by simp) rfl
  have hread_open := (released_emit_iff (e := .timerGet (a.now o)) rfl rfl).mpr hopen
  simp only [shootLoop]
  split_ifs
  · exact ⟨hread.emit_other (by simp) rfl, (released_emit_iff rfl rfl).mpr hread_open⟩
  · exact ⟨hread, hread_open⟩

/-- What the last loop and the last statement make of a period that reaches them:
with the second reading of the first test at 2 s or later nothing is released, and
otherwise the lock is open at the end, in order if the robot stood still before. -/
theorem Approach.shot (h : Approach s still epoch ticks a) (hlate : 9 / 5 ≤ a.now o)
    (hexit : (shootLoop o).Exits a t) :
    if o.time.reading epoch (ticks + 1) < 2 then
      Progress s still True (t.arcadeDrive 0 0).robot ∧ (t.arcadeDrive 0 0).robot.Released
    else (t.arcadeDrive 0 0).robot.Locked := by
  have hnow : (a.timeGet o).now o = o.time.reading epoch (ticks + 1) := by
    rw [Auto.now, Auto.epoch_timeGet, Auto.ticks_timeGet, h.epoch_eq, h.ticks_eq]
  have htest := test_shootLoop_of_late hlate
  rw [hnow] at htest
  rcases hexit.first_pass with ⟨hfalse, rfl⟩ | ⟨htrue, hrest⟩
  · rw [htest, decide_eq_false_iff_not] at hfalse
    rw [if_neg hfalse, htest]
    have hread := locked_emit (e := .timerGet (a.now o)) h.locked (by simp) (by simp)
    have hagain := locked_emit (e := .timerGet ((a.timeGet o).now o)) hread (by simp) (by simp)
    exact locked_emit (e := .arcadeDrive (.values 0 0)) hagain (by simp) (by simp)
  · have hfirst := shootLoop_pass h.progress htrue
    rw [htest, decide_eq_true_iff] at htrue
    rw [if_pos htrue]
    rw [true_and] at hfirst
    -- later passes release again, standing still after the first one
    obtain ⟨u, ⟨hprogress, hreleased⟩, -, rfl⟩ := hrest.invariant
      (I := fun u => Progress s still True u.robot ∧ u.robot.Released) hfirst
      fun u hu hpass => by simpa using shootLoop_pass hu.1 hpass
    obtain ⟨hread, hopen⟩ := test_shootLoop_keeps (o := o) hprogress hreleased
    exact ⟨hread.emit_stop, (released_emit_iff rfl rfl).mpr hopen⟩

theorem autonomousReturns_shot {t : State} (h : AutonomousReturns o s t) :
    ∃ n k m, Milestones o n k m ∧
      if o.time.reading (k + 1) (m + 2) < 2 then Progress s (0 < m) True t ∧ t.Released
      else t.Locked := by
  obtain ⟨waited, driven, settled, shot, hwait, hdrive, hsettle, hshoot, rfl⟩ :=
    autonomousReturns_iff.mp h
  obtain ⟨n, k, m, hmilestones, happroach⟩ := approach_settled hwait hdrive hsettle
  -- the settling loop has read 1.8 s, and the clock does not go back
  have hlate : 9 / 5 ≤ settled.now o := by
    rw [Auto.now, happroach.epoch_eq, happroach.ticks_eq]
    exact hmilestones.settle.1.2.trans (o.time.mono (k + 1) (Nat.le_succ m))
  exact ⟨n, k, m, hmilestones, happroach.shot hlate hshoot⟩

theorem locked_or_released_of_autonomousReturns {t : State} (h : AutonomousReturns o s t) :
    t.Locked ∨ t.Released := by
  obtain ⟨n, k, m, -, hshot⟩ := autonomousReturns_shot h
  split_ifs at hshot
  · exact Or.inr hshot.2
  · exact Or.inl hshot

end Shot

/-- The clock readings that make an ordered shot: if the drive loop has run, its
last reset is followed by a reading below 1.8 s, so that the robot is stopped, and
the second reading after the first one of 1.8 s is below 2 s. -/
def ShotWindow (o : Oracle) : Prop :=
  ∃ waited driven settled, Milestones o waited driven settled ∧ 0 < settled ∧
    o.time.reading (driven + 1) (settled + 2) < 2

theorem orderedShot_iff {o : Oracle} {s t : State} (h : AutonomousReturns o s t) :
    OrderedShot s t ↔ ShotWindow o := by
  obtain ⟨n, k, m, hmilestones, hshot⟩ := autonomousReturns_shot h
  have hwindow : ShotWindow o ↔ 0 < m ∧ o.time.reading (k + 1) (m + 2) < 2 := by
    constructor
    · rintro ⟨n', k', m', hmilestones', hbefore, hafter⟩
      obtain rfl : n' = n := hmilestones'.wait.unique hmilestones.wait
      obtain rfl : k' = k := hmilestones'.drive.unique hmilestones.drive
      obtain rfl : m' = m := hmilestones'.settle.unique hmilestones.settle
      exact ⟨hbefore, hafter⟩
    · intro h
      exact ⟨n, k, m, hmilestones, h⟩
  rw [hwindow]
  split_ifs at hshot with hafter
  · rw [hshot.1.orderedShot_iff_released]
    simp [hshot.2, hafter]
  · have hclosed : ¬ OrderedShot s t := by
      rintro ⟨-, -, -, hreleased⟩
      have hboth : false = true := hshot.1.symm.trans hreleased.1
      cases hboth
    exact iff_of_false hclosed fun h => hafter h.2

def drivingOracle : Oracle :=
  { tickOracle with drive := fun k => if k = 0 then 0 else -3400 }

theorem isLeast_tick {m : ℕ} {b : Rat} (hm : (m : Rat) / 20 = b) :
    IsLeast {n : ℕ | b ≤ (n : Rat) / 20} m := by
  refine ⟨hm.ge, ?_⟩
  intro n (hn : b ≤ (n : Rat) / 20)
  have hcast : (m : Rat) ≤ n := by
    rw [← hm] at hn
    linarith
  exact Nat.cast_le.mp hcast

theorem shotWindow_drivingOracle : ShotWindow drivingOracle := by
  refine ⟨10, 1, 36, ⟨isLeast_tick (by norm_num), ⟨by decide, ?_⟩, ?_⟩, by decide, ?_⟩
  · intro k hk
    by_contra hlt
    obtain rfl : k = 0 := by omega
    exact absurd hk (by decide)
  · have hleast : IsLeast {n : ℕ | (9 / 5 : Rat) ≤ (n : Rat) / 20} 36 :=
      isLeast_tick (by norm_num)
    simpa [drivingOracle, tickOracle] using hleast
  · change ((36 + 2 : ℕ) : Rat) / 20 < 2
    norm_num

theorem orderedShot_driving :
    ∃ t, AutonomousReturns drivingOracle State.initial t ∧ OrderedShot State.initial t := by
  have hreturns : AutonomousReturns drivingOracle State.initial
      ((autonomous drivingOracle 40 State.initial).getD State.initial) :=
    ⟨40, by decide +kernel⟩
  exact ⟨_, hreturns, (orderedShot_iff hreturns).mpr shotWindow_drivingOracle⟩

/-- A clock that is read once a second steps over the window: `autonomous` returns
with the lock engaged. -/
theorem not_orderedShot_seconds :
    ∃ t, AutonomousReturns (stuckOracle (-3400)) State.initial t ∧
      ¬ OrderedShot State.initial t := by
  refine ⟨(autonomous (stuckOracle (-3400)) 4 State.initial).getD State.initial, ⟨4, ?_⟩, ?_⟩
  · decide +kernel
  · rintro ⟨-, -, -, hreleased⟩
    revert hreleased
    decide +kernel

end Sotabots.Robot
