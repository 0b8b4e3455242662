import Sotabots.Robot.Winch
/-!
# The winch motor over whole periods

The motor keeps its last command, so a pass that takes a branch without a
`wench` call leaves an old one running.  `Winch.Consistent` ties the flag
`pressed` to the last command and to the lock; it is kept by every branch, for
sensors that change between the tests of a pass.  With one sample per pass it
shows that the only branch that can leave a dangerous command running is the
latch branch.
-/

namespace Sotabots.Robot

open Machine

/-- `pressed` is set exactly while the last winch command is the automatic wind
or the stop that completes it, and the lock is then engaged. -/
structure Winch.Consistent (w : Winch) : Prop where
  pressed_iff : w.pressed = true ↔ w.site = some .wind ∨ w.site = some .windComplete
  locked : w.pressed = true → w.Locked

theorem Winch.consistent_step {w : Winch} (hw : w.Consistent) (r : WinchReads) :
    (w.step r).Consistent := by
  have hpressed : (w.step r).pressed = nextPressed (w.branch r) w.pressed := rfl
  have hsite := w.site_step r
  have hlocked := w.locked_step r
  cases hb : w.branch r with
  | pull =>
      have hguard := Winch.guard_of_branch hb
      rw [hb] at hpressed hsite
      have hoff : (w.step r).pressed = false := hpressed.trans hguard.2.2
      constructor <;> simp [hoff, hsite, nextSite]
  | latch =>
      rw [hb] at hpressed hsite hlocked
      constructor
      · rw [hpressed, hsite]
        exact hw.pressed_iff
      · exact fun _ => hlocked.mpr trivial
  | wind =>
      rw [hb] at hpressed hsite hlocked
      constructor
      · simp [hpressed, hsite, nextPressed, nextSite]
      · exact fun _ => hlocked.mpr trivial
  | trigger =>
      rw [hb] at hpressed hsite
      constructor <;> simp [hpressed, hsite, nextPressed, nextSite]
  | windComplete =>
      have hguard := Winch.guard_of_branch hb
      rw [hb] at hpressed hsite hlocked
      constructor
      · simp [hpressed, hsite, nextPressed, nextSite, hguard.1]
      · exact fun _ => hlocked.mpr trivial
  | manual =>
      have hguard := Winch.guard_of_branch hb
      rw [hb] at hpressed hsite
      have hoff : (w.step r).pressed = false := hpressed.trans hguard
      constructor <;> simp [hoff, hsite, nextSite]
  | hold =>
      rw [hb] at hpressed hsite hlocked
      constructor
      · rw [hpressed, hsite]
        exact hw.pressed_iff
      · rw [hpressed]
        exact fun h => hlocked.mpr (hw.locked h)

theorem consistent_teleopEntry {s : State} (hs : s.pressed = false) :
    (teleopEntry s).winch.Consistent := by
  have hpressed : (teleopEntry s).winch.pressed = false := by
    simp [State.winch, teleopEntry, hs]
  have hsite : (teleopEntry s).winch.site = some .teleopEntry := by
    simp [site_winch, State.wenchSite, State.wench, teleopEntry, wenchOf_cons,
      Event.wenchCommand]
  constructor <;> simp [hpressed, hsite]

theorem consistent_sampledBody {s : State} (hs : s.winch.Consistent) (i : Inputs) :
    (sampledBody s i).winch.Consistent := by
  rw [winch_sampledBody]
  exact Winch.consistent_step hs i.winch.reads

theorem consistent_loopBody {s : State} (hs : s.winch.Consistent) (r : Reads) :
    (loopBody s r).winch.Consistent := by
  rw [winch_loopBody]
  exact Winch.consistent_step hs r.winch

theorem took_latch_or_hold {s : State} {i : Inputs} {site : WenchSite}
    (hpost : (sampledBody s i).wenchSite = some site)
    (hbranch : nextSite (branchOf s i) none ≠ some site) :
    s.wenchSite = some site ∧ (branchOf s i = .latch ∨ branchOf s i = .hold) := by
  rw [wenchSite_sampledBody] at hpost
  cases hb : branchOf s i <;> simp_all [nextSite]

/-! ## No overwind -/

/-- The automatic wind command is never left on the motor by a pass that reads
the paid-out count, exactly on the runs whose latch passes never come on top of
a wind command at that count: the latch test stands before the stop test. -/
theorem no_overwind_iff (inputs : List Inputs) :
    (∀ it ∈ teleopTrace State.initial inputs,
        windCount ≤ it.input.winch.winchEncoder → it.post.wenchSite ≠ some .wind) ↔
      ∀ it ∈ teleopTrace State.initial inputs,
        Took .latch it → windCount ≤ it.input.winch.winchEncoder →
          it.pre.wenchSite ≠ some .wind := by
  refine safe_iff_admissible (I := fun _ => True) trivial (fun _ _ _ _ => trivial)
    ?_ ?_ inputs
  · intro s i _ hC hcount hpost
    have hwind : nextSite (branchOf s i) none ≠ some .wind := by
      intro hsite
      have hb : branchOf s i = .wind := nextSite_none_inj hsite rfl
      exact absurd (guard_branchOf hb).2.1 (not_lt.mpr hcount)
    obtain ⟨hpre, hlatch | hhold⟩ := took_latch_or_hold hpost hwind
    · exact hC hlatch hcount hpre
    · -- a pass that takes no branch has read a smaller count in the stop test
      exact absurd (guard_branchOf hhold).2 (not_lt.mpr hcount)
  · intro s i hP (hlatch : branchOf s i = .latch) hcount hpre
    apply hP hcount
    change (sampledBody s i).wenchSite = some .wind
    rw [wenchSite_sampledBody, hlatch]
    exact hpre

/-- Wind, then press button 2 again as the count passes 560: the winch keeps
winding. -/
theorem overwind_relatch :
    ¬ ∀ it ∈ teleopTrace State.initial
        [.ofWinch ⟨true, false, 0, false, 0⟩, .ofWinch ⟨false, false, 0, false, 0⟩,
          .ofWinch ⟨true, false, 600, false, 0⟩],
      windCount ≤ it.input.winch.winchEncoder → it.post.wenchSite ≠ some .wind := by
  decide +kernel

/-! ## No pulling against the limit switch -/

/-- The automatic pull is never left on the motor with the limit switch closed,
exactly on the runs with no latch pass on top of a pull: the latch branch engages
the lock and leaves the motor pulling. -/
theorem no_pull_at_limit_iff (inputs : List Inputs) :
    (∀ it ∈ teleopTrace State.initial inputs,
        it.input.winch.limSwitch = false → it.post.wenchSite ≠ some .pull) ↔
      ∀ it ∈ teleopTrace State.initial inputs,
        Took .latch it → it.pre.wenchSite ≠ some .pull := by
  have hinit : (teleopEntry State.initial).winch.Consistent := consistent_teleopEntry rfl
  refine safe_iff_admissible (I := fun s => s.winch.Consistent) hinit
    (fun s i hs _ => consistent_sampledBody hs i) ?_ ?_ inputs
  · intro s i hs hC (hclosed : i.winch.limSwitch = false) hpost
    have hpull : nextSite (branchOf s i) none ≠ some .pull := by
      intro hsite
      have hb : branchOf s i = .pull := nextSite_none_inj hsite rfl
      have hopen : i.winch.limSwitch = true := (guard_branchOf hb).2.1
      rw [hclosed] at hopen
      cases hopen
    obtain ⟨hpre, hlatch | hhold⟩ := took_latch_or_hold hpost hpull
    · exact hC hlatch hpre
    · -- a pass without a branch has `pressed` set, which a pull command excludes
      have hpressed := hs.pressed_iff.mp (guard_branchOf hhold).1
      rw [site_winch, hpre] at hpressed
      simp at hpressed
  · intro s i hP (hlatch : branchOf s i = .latch) hpre
    refine hP (guard_branchOf hlatch).1 ?_
    change (sampledBody s i).wenchSite = some .pull
    rw [wenchSite_sampledBody, hlatch]
    exact hpre

/-- The ordinary pull: the switch closes with button 2 still held, and the motor
goes on pulling. -/
theorem pull_at_limit_held :
    ¬ ∀ it ∈ teleopTrace State.initial
        [.ofWinch ⟨true, true, 0, false, 0⟩, .ofWinch ⟨true, false, 0, false, 0⟩],
      it.input.winch.limSwitch = false → it.post.wenchSite ≠ some .pull := by
  decide +kernel

/-! ## The meaning of `pressed` -/

structure Winch.FixedCommands (w : Winch) : Prop where
  wind : ∀ c, wenchOf w.log = some (.wind, c) → c = .set (4 / 5)
  windComplete : ∀ c, wenchOf w.log = some (.windComplete, c) → c = .stopMotor

theorem Winch.fixedCommands_step {w : Winch} (hw : w.FixedCommands) (r : WinchReads) :
    (w.step r).FixedCommands := by
  have hwench := w.wench_step r
  cases hb : w.branch r with
  | latch =>
      rw [hb] at hwench
      exact ⟨fun c hc => hw.wind c (hwench.symm.trans hc),
        fun c hc => hw.windComplete c (hwench.symm.trans hc)⟩
  | hold =>
      rw [hb] at hwench
      exact ⟨fun c hc => hw.wind c (hwench.symm.trans hc),
        fun c hc => hw.windComplete c (hwench.symm.trans hc)⟩
  | _ =>
      rw [hb] at hwench
      constructor <;> intro c hc <;> rw [hwench] at hc <;> simp_all [nextWench]

theorem fixedCommands_teleopEntry (s : State) : (teleopEntry s).winch.FixedCommands := by
  have hwench : wenchOf (teleopEntry s).winch.log = some (.teleopEntry, .set 0) := by
    simp [wench_winch, State.wench, teleopEntry, wenchOf_cons, Event.wenchCommand]
  constructor <;> intro c hc <;> rw [hwench] at hc <;> simp at hc

/-- `pressed` says that the winch is winding or has wound on its own: the last
command is one of the two automatic ones and not a stick value, and the lock is
engaged. -/
structure PressedMeaning (s : State) : Prop where
  pressed_iff : s.pressed = true ↔
    s.wench = some (.wind, .set (4 / 5)) ∨ s.wench = some (.windComplete, .stopMotor)
  locked : s.pressed = true → s.Locked
  no_stick : s.pressed = true → ∀ speed,
    s.wench ≠ some (.manual, .set speed) ∧ s.wench ≠ some (.trigger, .set speed)

theorem pressedMeaning_of_consistent {s : State} (hs : s.winch.Consistent)
    (hfixed : s.winch.FixedCommands) : PressedMeaning s := by
  have hiff : s.pressed = true ↔
      s.wench = some (.wind, .set (4 / 5)) ∨ s.wench = some (.windComplete, .stopMotor) := by
    have hsite : s.pressed = true ↔
        s.wenchSite = some .wind ∨ s.wenchSite = some .windComplete := by
      rw [← site_winch]
      exact hs.pressed_iff
    have hwind := hfixed.wind
    have hstop := hfixed.windComplete
    rw [wench_winch] at hwind hstop
    rw [hsite, State.wenchSite]
    cases hw : s.wench with
    | none => simp
    | some command =>
        obtain ⟨site, c⟩ := command
        rw [hw] at hwind hstop
        simp only [Option.map_some, Option.some.injEq, Prod.mk.injEq] at hwind hstop ⊢
        constructor
        · rintro (rfl | rfl)
          · exact Or.inl ⟨rfl, hwind c ⟨rfl, rfl⟩⟩
          · exact Or.inr ⟨rfl, hstop c ⟨rfl, rfl⟩⟩
        · rintro (h | h)
          · exact Or.inl h.1
          · exact Or.inr h.1
  refine ⟨hiff, fun h => (locked_winch s).mp (hs.locked h), ?_⟩
  intro hpressed speed
  rcases hiff.mp hpressed with h | h
  · simp [h]
  · simp [h]

/-- In every period entered with `pressed` clear, at the end of every pass, and
with sensors that may change between any two reads. -/
theorem pressed_meaning {s : State} (hs : s.pressed = false) (reads : List Reads) :
    ∀ it ∈ iterations loopBody (teleopEntry s) reads, PressedMeaning it.post := by
  intro it hit
  have hconsistent := invariant_of_step (I := fun s : State => s.winch.Consistent)
    (consistent_teleopEntry hs) (fun _ r h => consistent_loopBody h r) reads it hit
  have hfixed := invariant_of_step (I := fun s : State => s.winch.FixedCommands)
    (fixedCommands_teleopEntry s) (fun t r h => by
      rw [winch_loopBody]
      exact Winch.fixedCommands_step h r.winch) reads it hit
  exact pressedMeaning_of_consistent hconsistent.2 hfixed.2

def encoderMoves : List Reads :=
  [(Inputs.ofWinch ⟨true, false, 0, false, 0⟩).reads,
    (Inputs.ofWinch ⟨false, false, 0, false, 0⟩).reads,
    { (Inputs.ofWinch ⟨false, true, 559, false, 0⟩).reads with
      winch := { (WinchSample.mk false true 559 false 0).reads with stopEncoder := 560 } }]

theorem pressed_meaning_encoder_moves :
    PressedMeaning (run loopBody (teleopEntry State.initial) encoderMoves) := by
  have hlast := pressed_meaning (s := State.initial) rfl encoderMoves _
    (List.mem_cons_of_mem _ (List.mem_cons_of_mem _ List.mem_cons_self))
  exact hlast

end Sotabots.Robot
