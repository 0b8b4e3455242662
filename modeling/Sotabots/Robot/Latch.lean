import Sotabots.Robot.Winch
import Sotabots.Machine.Past
/-!
# The latch over whole periods

`latched` and `winding` are set and cleared by branches of the winch chain, so
each says that one kind of pass has happened and another has not happened since.
Two things are expected of them: a latched catapult stays locked until the
trigger is pulled, and the winch never starts to wind on its own.  Both fail on
one kind of pass, named by the theorems below, and hold on every run without it.
-/

namespace Sotabots.Robot

open Machine

variable {inputs : List Inputs} {before after : List (Iteration State Inputs)}
  {it : Iteration State Inputs}

/-- A latch pass, and no trigger pass since. -/
def LatchPending (history : List (Iteration State Inputs)) : Prop :=
  Since (Took .latch) (fun it => ¬ Took .trigger it) history

theorem latched_sampledBody_iff (s : State) (i : Inputs) :
    (sampledBody s i).latched = .latched ↔
      branchOf s i = .latch ∨ (s.latched = .latched ∧ ¬ branchOf s i = .trigger) := by
  rw [latched_sampledBody]
  cases branchOf s i <;> simp [nextLatched]

theorem latched_at_iff (hsplit : teleopTrace State.initial inputs = before ++ it :: after) :
    (it.pre.latched = .latched ↔ LatchPending before) ∧
      (it.post.latched = .latched ↔ LatchPending (before ++ [it])) :=
  flag_at_iff_since (fun s => s.latched = .latched) (Took .latch) (Took .trigger)
    (by decide) latched_sampledBody_iff hsplit

/-! ## No release without the trigger -/

/-- A latched catapult is held: from a latch pass up to the next trigger pass the
lock is engaged at the end of every pass, and so it is whenever `latched` says
so. -/
structure HeldUntilTrigger (trace : List (Iteration State Inputs)) : Prop where
  held : ∀ before it after, trace = before ++ it :: after →
    LatchPending (before ++ [it]) → it.post.Locked
  latched_locked : ∀ it ∈ trace, it.post.latched = .latched → it.post.Locked

theorem latched_locked_step {s : State} {i : Inputs} (hs : s.latched = .latched → s.Locked)
    (hmanual : branchOf s i = .manual → s.latched = .unlatched) :
    (sampledBody s i).latched = .latched → (sampledBody s i).Locked := by
  rw [latched_sampledBody, locked_sampledBody]
  cases hb : branchOf s i with
  | pull => exact hs
  | latch => exact fun _ => trivial
  | wind => exact fun _ => trivial
  | trigger => simp [nextLatched]
  | windComplete => exact fun _ => trivial
  | manual => simp [nextLatched, hmanual hb]
  | hold => exact hs

/-- The lock is held until the trigger exactly on the runs that never enter the
manual branch, which releases the lock for stick control of the winch, while
`latched` is set. -/
theorem heldUntilTrigger_iff (inputs : List Inputs) :
    HeldUntilTrigger (teleopTrace State.initial inputs) ↔
      ∀ it ∈ teleopTrace State.initial inputs,
        Took .manual it → it.pre.latched = .unlatched := by
  have hexact : (∀ it ∈ teleopTrace State.initial inputs,
      it.post.latched = .latched → it.post.Locked) ↔
      ∀ it ∈ teleopTrace State.initial inputs,
        Took .manual it → it.pre.latched = .unlatched := by
    refine safe_iff_admissible (I := fun s => s.latched = .latched → s.Locked)
      (by decide) (fun s i hs hC => latched_locked_step hs hC)
      (fun s i hs hC => latched_locked_step hs hC) ?_ inputs
    intro s i hsafe (hmanual : branchOf s i = .manual)
    rw [latched_sampledBody, locked_sampledBody, hmanual] at hsafe
    cases hl : s.latched with
    | unlatched => rfl
    | latched => exact (hsafe hl).elim
  constructor
  · exact fun h => hexact.mp h.latched_locked
  · intro h
    have hlocked := hexact.mpr h
    refine ⟨?_, hlocked⟩
    intro before it after hsplit hpending
    refine hlocked it (by simp [hsplit]) ?_
    exact (latched_at_iff hsplit).2.mpr hpending

/-- Latch the catapult, then let the limit switch bounce open with every control
released: the stick branch unlocks it. -/
theorem not_heldUntilTrigger_bounce :
    ¬ HeldUntilTrigger (teleopTrace State.initial
      [.ofWinch ⟨true, false, 0, false, 0⟩, .ofWinch ⟨false, true, 0, false, 0⟩]) := by
  intro h
  exact absurd h.latched_locked (by decide +kernel)

/-! ## No self-started winding -/

/-- The winch winds only for a pending latch: every wind pass has a latch pass
before it with no trigger pass in between, and `winding` is never left set when
`latched` is not. -/
structure NoSelfStart (trace : List (Iteration State Inputs)) : Prop where
  wind_pending : ∀ before it after, trace = before ++ it :: after →
    Took .wind it → LatchPending before
  winding_latched : ∀ it ∈ trace, it.post.winding = true → it.post.latched = .latched

theorem winding_latched_step {s : State} {i : Inputs}
    (hs : s.winding = true → s.latched = .latched)
    (htrigger : branchOf s i = .trigger → s.winding = false) :
    (sampledBody s i).winding = true → (sampledBody s i).latched = .latched := by
  rw [winding_sampledBody, latched_sampledBody]
  cases hb : branchOf s i with
  | latch => exact fun _ => rfl
  | trigger => simp [nextWinding, htrigger hb]
  | windComplete => simp [nextWinding]
  | _ => exact hs

/-- The winch never starts on its own exactly on the runs whose trigger passes
all start with `winding` clear: the trigger branch is the one that clears
`latched` and leaves `winding` alone. -/
theorem noSelfStart_iff (inputs : List Inputs) :
    NoSelfStart (teleopTrace State.initial inputs) ↔
      ∀ it ∈ teleopTrace State.initial inputs,
        Took .trigger it → it.pre.winding = false := by
  have hexact : (∀ it ∈ teleopTrace State.initial inputs,
      it.post.winding = true → it.post.latched = .latched) ↔
      ∀ it ∈ teleopTrace State.initial inputs,
        Took .trigger it → it.pre.winding = false := by
    refine safe_iff_admissible (I := fun s => s.winding = true → s.latched = .latched)
      (by decide) (fun s i hs hC => winding_latched_step hs hC)
      (fun s i hs hC => winding_latched_step hs hC) ?_ inputs
    intro s i hsafe (htrigger : branchOf s i = .trigger)
    rw [winding_sampledBody, latched_sampledBody, htrigger] at hsafe
    cases hw : s.winding with
    | false => rfl
    | true => exact absurd (hsafe hw) (by simp [nextLatched])
  constructor
  · exact fun h => hexact.mp h.winding_latched
  · intro h
    refine ⟨?_, hexact.mpr h⟩
    intro before it after hsplit hwind
    have hmem : it ∈ teleopTrace State.initial inputs := by simp [hsplit]
    have hpre : it.pre.winding = true → it.pre.latched = .latched :=
      (invariant_at (I := fun s : State => s.winding = true → s.latched = .latched) (by decide)
        (fun s i hs hC => winding_latched_step hs hC) h it hmem).1
    have hwinding : it.pre.winding = true := (guard_branchOf hwind).2.2
    exact (latched_at_iff hsplit).1.mp (hpre hwinding)

def staleWinding : List Inputs :=
  [.ofWinch ⟨true, false, 0, false, 0⟩, .ofWinch ⟨false, true, 0, true, 0⟩,
    .ofWinch ⟨false, false, 0, false, 0⟩]

/-- Latch, fire with the switch open before the winch has paid out, and close the
switch again: the stale flag starts the winch with no latch pending. -/
theorem not_noSelfStart_staleWinding :
    ¬ NoSelfStart (teleopTrace State.initial staleWinding) ∧
      ∃ before it after, teleopTrace State.initial staleWinding = before ++ it :: after ∧
        Took .wind it ∧ ¬ LatchPending before := by
  constructor
  · intro h
    exact absurd h.winding_latched (by decide +kernel)
  · have hsplit : teleopTrace State.initial staleWinding = [_, _] ++ _ :: [] := rfl
    refine ⟨_, _, _, hsplit, by decide +kernel, ?_⟩
    rw [← (latched_at_iff hsplit).1]
    decide +kernel

end Sotabots.Robot
