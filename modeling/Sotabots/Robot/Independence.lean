import Sotabots.Robot.Components
/-!
# Independence of the mechanisms

Two runs of the teleoperation loop from one state that agree on the controls of a
mechanism should command it alike, whatever the other inputs do.  Four of the
five mechanisms have this property.  The intake position does not: its buttons
stand in the `else` branches of the shifter buttons, so a held shifter button
hides them.
-/

namespace Sotabots.Robot

open Machine

variable {s : State} {first second : List Reads}

def SameCommands (s : State) (d : Device) (first second : List Reads) : Prop :=
  observations loopBody (fun t => t.deviceLog d) s first =
    observations loopBody (fun t => t.deviceLog d) s second

/-- A mechanism is independent of everything outside the field `f` and the
controls `key` if its section reads nothing else. -/
theorem sameCommands_of_section {φ κ : Type} {d : Device} {f : State → φ} {key : Reads → κ}
    (hfield : ∀ s t r q, f s = f t → key r = key q → f (loopBody s r) = f (loopBody t q))
    (hcalls : ∀ s t r q, f s = f t → key r = key q → callsOn s r d = callsOn t q d)
    (hkey : first.map key = second.map key) : SameCommands s d first second := by
  refine observations_eq
    (R := fun s t => f s = f t ∧ s.deviceLog d = t.deviceLog d)
    (fun s t hR => hR.2) ?_ ⟨rfl, rfl⟩ hkey
  intro s t r q hR hrq
  refine ⟨hfield s t r q hR.1 hrq, ?_⟩
  rw [deviceLog_loopBody, deviceLog_loopBody, hcalls s t r q hR.1 hrq, hR.2]

/-! ## The controls of each mechanism -/

def positionButtons (r : Reads) : Bool × Bool := (r.left5, r.left6)

def shiftButtons (r : Reads) : Bool × Bool := (r.left3, r.left4)

def ledButtons (r : Reads) : Bool × Bool × Bool := (r.leftTrigger, r.left7, r.left8)

def intakeButtons (r : Reads) : Bool × Bool := (r.right3, r.right4)

theorem sameCommands_shifter (hkey : first.map shiftButtons = second.map shiftButtons) :
    SameCommands s .shifter first second := by
  refine sameCommands_of_section (f := State.shifted) ?_ ?_ hkey <;>
    intro s t r q hst hrq <;>
    simp only [shiftButtons, Prod.mk.injEq] at hrq
  · rw [loopBody_eq, loopBody_eq, hst, hrq.1, hrq.2]
  · rw [callsOn, callsOn, hst, hrq.1, hrq.2]

theorem sameCommands_leds (hkey : first.map ledButtons = second.map ledButtons) :
    SameCommands s .leds first second := by
  refine sameCommands_of_section (f := State.modeIndex) ?_ ?_ hkey <;>
    intro s t r q hst hrq <;>
    simp only [ledButtons, Prod.mk.injEq] at hrq
  · rw [loopBody_eq, loopBody_eq, hst, hrq.1, hrq.2.1, hrq.2.2]
  · rw [callsOn, callsOn, hst]

theorem sameCommands_intakeMotor (hkey : first.map intakeButtons = second.map intakeButtons) :
    SameCommands s .intakeMotor first second := by
  -- the motor follows the buttons of the pass, so no field is carried over
  refine sameCommands_of_section (f := fun _ => ()) (fun _ _ _ _ _ _ => rfl) ?_ hkey
  intro s t r q _ hrq
  simp only [intakeButtons, Prod.mk.injEq] at hrq
  rw [callsOn, callsOn, hrq.1, hrq.2]

theorem sameCommands_winch (hkey : first.map Reads.winch = second.map Reads.winch) :
    SameCommands s .winch first second := by
  refine sameCommands_of_section (f := fun s => (s.pressed, s.winding)) ?_ ?_ hkey <;>
    intro s t r q hst hrq <;>
    simp only [Prod.mk.injEq] at hst
  · rw [loopBody_eq, loopBody_eq, hst.1, hst.2, hrq]
  · rw [callsOn, callsOn, hst.1, hst.2, hrq]

/-! ## The intake position -/

/-- The request for an intake position has the same effect in both passes: the
shifter buttons hide it in both or in neither, or there is none, or it is for the
position the intake is in. -/
def SameRequest (p q : Iteration State Reads) : Prop :=
  (p.input.left3 || p.input.left4) = (q.input.left3 || q.input.left4) ∨
    (p.input.left5 || p.input.left6) = false ∨ p.pre.intakeDown = !p.input.left5

theorem nextIntakeDown_eq_iff (down l3 l4 l3' l4' l5 l6 : Bool) :
    nextIntakeDown down l3 l4 l5 l6 = nextIntakeDown down l3' l4' l5 l6 ↔
      (l3 || l4) = (l3' || l4') ∨ (l5 || l6) = false ∨ down = !l5 := by
  revert down l3 l4 l3' l4' l5 l6
  decide

theorem intakeCalls_inj {down down' : Bool} :
    intakeCalls down = intakeCalls down' ↔ down = down' := by
  revert down down'
  decide

theorem sameCommands_intakePosition_iff
    (hkey : first.map positionButtons = second.map positionButtons) :
    SameCommands s .intakePosition first second ↔
      ∀ p ∈ pairs loopBody s s first second, SameRequest p.1 p.2 := by
  have hcalls : ∀ s t r q, s.intakeDown = t.intakeDown → positionButtons r = positionButtons q →
      (callsOn s r .intakePosition = callsOn t q .intakePosition ↔
        SameRequest ⟨s, r, loopBody s r⟩ ⟨t, q, loopBody t q⟩) := by
    intro s t r q hst hrq
    simp only [positionButtons, Prod.mk.injEq] at hrq
    rw [callsOn, callsOn, intakeCalls_inj, ← hst, ← hrq.1, ← hrq.2]
    exact nextIntakeDown_eq_iff _ _ _ _ _ _ _
  refine observations_eq_iff
    (R := fun s t => s.intakeDown = t.intakeDown ∧
      s.deviceLog .intakePosition = t.deviceLog .intakePosition)
    ?_ ?_ ⟨rfl, rfl⟩ hkey
  · intro s t r q hR hrq
    rw [deviceLog_loopBody, deviceLog_loopBody, hR.2, List.append_cancel_right_eq]
    exact hcalls s t r q hR.1 hrq
  · intro s t r q hR hrq hC
    have hsame := (hcalls s t r q hR.1 hrq).mpr hC
    refine ⟨?_, ?_⟩
    · rw [loopBody_eq, loopBody_eq]
      exact intakeCalls_inj.mp hsame
    · rw [deviceLog_loopBody, deviceLog_loopBody, hsame, hR.2]

/-! ## All five -/

/-- Agreement on the controls of a mechanism, at every pass, makes the two runs
command it alike. -/
structure Independent (s : State) (first second : List Reads) : Prop where
  intakePosition : first.map positionButtons = second.map positionButtons →
    SameCommands s .intakePosition first second
  shifter : first.map shiftButtons = second.map shiftButtons →
    SameCommands s .shifter first second
  leds : first.map ledButtons = second.map ledButtons →
    SameCommands s .leds first second
  intakeMotor : first.map intakeButtons = second.map intakeButtons →
    SameCommands s .intakeMotor first second
  winch : first.map Reads.winch = second.map Reads.winch →
    SameCommands s .winch first second

/-- The mechanisms are independent in two runs exactly when, if the runs agree on
the position buttons, no pass has a shifter button held in one of them only
while a position button asks the intake to move. -/
theorem independent_iff (s : State) (first second : List Reads) :
    Independent s first second ↔
      (first.map positionButtons = second.map positionButtons →
        ∀ p ∈ pairs loopBody s s first second, SameRequest p.1 p.2) := by
  constructor
  · intro h hkey
    exact (sameCommands_intakePosition_iff hkey).mp (h.intakePosition hkey)
  · intro h
    refine ⟨?_, sameCommands_shifter, sameCommands_leds, sameCommands_intakeMotor,
      sameCommands_winch⟩
    intro hkey
    exact (sameCommands_intakePosition_iff hkey).mpr (h hkey)

theorem not_independent_shiftHeld :
    ¬ Independent State.initial
      [Inputs.reads { Inputs.ofWinch ⟨false, false, 0, false, 0⟩ with left5 := true }]
      [Inputs.reads { Inputs.ofWinch ⟨false, false, 0, false, 0⟩ with
        left5 := true, left3 := true }] := by
  intro h
  have hsame := h.intakePosition rfl
  revert hsame
  unfold SameCommands
  decide +kernel

end Sotabots.Robot
