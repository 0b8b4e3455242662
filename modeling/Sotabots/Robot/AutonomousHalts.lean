import Sotabots.Robot.Autonomous
import Mathlib.Algebra.Order.Archimedean.Basic
import Mathlib.Tactic.Linarith
/-!
# When `autonomous` returns

The three loops that wait for the clock are left on every fair clock: readings
grow past any bound as long as nothing resets the timer, and none of the three
does.  The loop that drives to the encoder mark is left only when one of its
tests reads -3400 or less.  It takes two readings per pass, one in the test and
one for the printout, so its tests see the readings with an even index.
-/

namespace Sotabots.Robot

open Machine Network

/-- The assumptions on the surroundings: a running clock passes every bound, and
the period is over at some point. -/
structure Oracle.Fair (o : Oracle) : Prop where
  clock_runs : ∀ e b, ∃ n, b < o.time.reading e n
  mode_ends : ∃ n, ∀ m ≥ n, o.mode m = false

/-! ## Loops that wait for the clock -/

/-- A loop that takes one clock reading per test and no other reading. -/
structure PollsClock (o : Oracle) (bound : Rat) (L : Loop Auto) : Prop where
  test_eq : ∀ a, L.test a = (decide (a.now o < bound), a.timeGet o)
  epoch_body : ∀ a, (L.body a).epoch = a.epoch
  ticks_body : ∀ a, (L.body a).ticks = a.ticks
  reads_body : ∀ a, (L.body a).reads = a.reads

theorem pollsClock_waitLoop (o : Oracle) : PollsClock o (1 / 2) (waitLoop o) := by
  constructor <;> intro a <;> simp [waitLoop]

theorem pollsClock_settleLoop (o : Oracle) : PollsClock o (9 / 5) (settleLoop o) := by
  constructor <;> intro a <;> simp [settleLoop]

namespace PollsClock

variable {o : Oracle} {bound : Rat} {L : Loop Auto} (h : PollsClock o bound L)

include h

theorem counters_next (a : Auto) :
    (L.next a).epoch = a.epoch ∧ (L.next a).ticks = a.ticks + 1 ∧
      (L.next a).reads = a.reads := by
  unfold Loop.next
  rw [h.epoch_body, h.ticks_body, h.reads_body, h.test_eq]
  exact ⟨rfl, rfl, rfl⟩

theorem counters_iterate (a : Auto) (k : ℕ) :
    (L.next^[k] a).epoch = a.epoch ∧ (L.next^[k] a).ticks = a.ticks + k := by
  induction k with
  | zero => exact ⟨rfl, rfl⟩
  | succ k ih =>
      have hnext := h.counters_next (L.next^[k] a)
      rw [Function.iterate_succ_apply', hnext.1, hnext.2.1, ih.1, ih.2]
      exact ⟨rfl, by omega⟩

theorem test_iterate (a : Auto) (k : ℕ) :
    (L.test (L.next^[k] a)).1 = decide (o.time.reading a.epoch (a.ticks + k) < bound) := by
  have hcounters := h.counters_iterate a k
  rw [h.test_eq, Auto.now, hcounters.1, hcounters.2]

theorem exists_exits (hfair : o.Fair) (a : Auto) : ∃ t, L.Exits a t := by
  rw [Loop.exists_exits_iff]
  obtain ⟨n, hn⟩ := hfair.clock_runs a.epoch bound
  refine ⟨n, ?_⟩
  have hlate : o.time.reading a.epoch n ≤ o.time.reading a.epoch (a.ticks + n) :=
    o.time.mono a.epoch (by omega)
  rw [h.test_iterate, decide_eq_false_iff_not, not_lt]
  linarith

theorem reads_of_exits {a t : Auto} (hexit : L.Exits a t) : t.reads = a.reads := by
  apply hexit.frame (f := Auto.reads) _ h.reads_body
  intro u
  rw [h.test_eq]
  rfl

end PollsClock

/-! ## The shooting window -/

theorem late_of_test_shootLoop {o : Oracle} {a : Auto}
    (htest : ((shootLoop o).test a).1 = true) : 9 / 5 ≤ a.now o := by
  by_contra hearly
  simp [shootLoop, hearly] at htest

theorem test_shootLoop_of_late {o : Oracle} {a : Auto} (hlate : 9 / 5 ≤ a.now o) :
    (shootLoop o).test a = (decide ((a.timeGet o).now o < 2), (a.timeGet o).timeGet o) :=
  if_pos hlate

theorem exists_exits_shootLoop {o : Oracle} (hfair : o.Fair) (a : Auto) :
    ∃ t, (shootLoop o).Exits a t := by
  rw [Loop.exists_exits_iff]
  by_contra hnever
  have htrue : ∀ k, ((shootLoop o).test ((shootLoop o).next^[k] a)).1 = true := by
    intro k
    by_contra hk
    exact hnever ⟨k, by simpa using hk⟩
  have htest : ∀ u, ((shootLoop o).test u).1 = true →
      o.time.reading u.epoch (u.ticks + 1) < 2 ∧
        ((shootLoop o).next u).epoch = u.epoch ∧
        ((shootLoop o).next u).ticks = u.ticks + 2 := by
    intro u hu
    have hboth := test_shootLoop_of_late (late_of_test_shootLoop hu)
    rw [hboth] at hu
    refine ⟨of_decide_eq_true hu, ?_, ?_⟩
    · rw [Loop.next, hboth]
      simp [shootLoop]
    · rw [Loop.next, hboth]
      simp [shootLoop]
  -- no test fails, so every pass takes both readings
  have hcounters : ∀ k, ((shootLoop o).next^[k] a).epoch = a.epoch ∧
      ((shootLoop o).next^[k] a).ticks = a.ticks + 2 * k := by
    intro k
    induction k with
    | zero => exact ⟨rfl, rfl⟩
    | succ k ih =>
        have hnext := (htest _ (htrue k)).2
        rw [Function.iterate_succ_apply', hnext.1, hnext.2, ih.1, ih.2]
        exact ⟨rfl, by omega⟩
  obtain ⟨n, hn⟩ := hfair.clock_runs a.epoch 2
  have hlast := (htest _ (htrue n)).1
  rw [(hcounters n).1, (hcounters n).2] at hlast
  have hlate : o.time.reading a.epoch n ≤ o.time.reading a.epoch (a.ticks + 2 * n + 1) :=
    o.time.mono a.epoch (by omega)
  linarith

/-! ## The drive loop -/

theorem reads_iterate_driveLoop (o : Oracle) (a : Auto) (k : ℕ) :
    ((driveLoop o).next^[k] a).reads = a.reads + 2 * k := by
  induction k with
  | zero => rfl
  | succ k ih =>
      rw [Function.iterate_succ_apply']
      simp only [Loop.next, driveLoop, Auto.reads_timeReset, Auto.reads_driveGet,
        Auto.reads_emit, Auto.reads_arcadeDrive] at ih ⊢
      rw [ih]
      omega

theorem test_iterate_driveLoop (o : Oracle) (a : Auto) (k : ℕ) :
    ((driveLoop o).test ((driveLoop o).next^[k] a)).1 = false ↔
      o.drive (a.reads + 2 * k) ≤ -3400 := by
  rw [← reads_iterate_driveLoop o a k]
  exact decide_eq_false_iff_not.trans not_lt

theorem exists_exits_driveLoop_iff (o : Oracle) (a : Auto) :
    (∃ t, (driveLoop o).Exits a t) ↔ ∃ k, o.drive (a.reads + 2 * k) ≤ -3400 := by
  rw [Loop.exists_exits_iff]
  simp only [test_iterate_driveLoop]

/-! ## The whole period -/

theorem reads_autonomousEntry (s : State) : (autonomousEntry s).reads = 0 := rfl

theorem reads_showDetected (o : Oracle) (a : Auto) : (showDetected o a).reads = a.reads :=
  showDetected_frame fun _ _ => rfl

theorem reads_of_waitLoop {o : Oracle} {s : State} {waited : Auto}
    (hwait : (waitLoop o).Exits (autonomousEntry s) waited) :
    (showDetected o waited).reads = 0 := by
  rw [reads_showDetected, (pollsClock_waitLoop o).reads_of_exits hwait]
  exact reads_autonomousEntry s

/-- `autonomous` hands control back exactly when some test of the drive loop, the
readings with an even index, sees the encoder at -3400 or below.  Whether the
period has ended plays no part: no loop asks. -/
theorem autonomous_returns_iff (o : Oracle) (hfair : o.Fair) (s : State) :
    (∃ t, AutonomousReturns o s t) ↔ ∃ k, o.drive (2 * k) ≤ -3400 := by
  constructor
  · rintro ⟨t, hreturns⟩
    obtain ⟨waited, driven, -, -, hwait, hdrive, -⟩ := autonomousReturns_iff.mp hreturns
    have hmark := (exists_exits_driveLoop_iff o _).mp ⟨driven, hdrive⟩
    simpa [reads_of_waitLoop hwait] using hmark
  · rintro ⟨k, hk⟩
    obtain ⟨waited, hwait⟩ := (pollsClock_waitLoop o).exists_exits hfair (autonomousEntry s)
    obtain ⟨driven, hdrive⟩ := (exists_exits_driveLoop_iff o (showDetected o waited)).mpr
      ⟨k, by simpa [reads_of_waitLoop hwait] using hk⟩
    obtain ⟨settled, hsettle⟩ := (pollsClock_settleLoop o).exists_exits hfair driven
    obtain ⟨shot, hshoot⟩ := exists_exits_shootLoop hfair settled
    exact ⟨_, autonomousReturns_iff.mpr
      ⟨waited, driven, settled, shot, hwait, hdrive, hsettle, hshoot, rfl⟩⟩

def secondsTimer : Timer where
  reading _ n := n
  nonneg _ n := Nat.cast_nonneg n
  mono _ _ _ h := Nat.cast_le.mpr h

def stuckOracle (position : Int) : Oracle where
  time := secondsTimer
  drive _ := position
  mode n := n < 10
  link := send (.int 1)

theorem fair_stuckOracle (position : Int) : (stuckOracle position).Fair := by
  refine ⟨fun _ b => ?_, 10, fun m hm => by simpa [stuckOracle] using hm⟩
  exact exists_nat_gt b

theorem autonomous_returns_atMark :
    ∃ t, AutonomousReturns (stuckOracle (-3400)) State.initial t :=
  (autonomous_returns_iff _ (fair_stuckOracle _) State.initial).mpr ⟨0, by decide⟩

/-- An unplugged encoder keeps the robot in the drive loop for good. -/
theorem autonomous_never_returns_unplugged :
    (stuckOracle 0).Fair ∧ ¬ ∃ t, AutonomousReturns (stuckOracle 0) State.initial t := by
  refine ⟨fair_stuckOracle 0, ?_⟩
  rintro ⟨t, hreturns⟩
  obtain ⟨waited, driven, -, -, -, hdrive, -⟩ := autonomousReturns_iff.mp hreturns
  obtain ⟨k, hk⟩ := (exists_exits_driveLoop_iff _ _).mp ⟨driven, hdrive⟩
  exact absurd (show (0 : Int) ≤ -3400 from hk) (by decide)

end Sotabots.Robot
