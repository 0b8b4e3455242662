import Sotabots.Robot.Sessions
import Sotabots.Led.Controller
/-!
# The robot and the LED controller

The five mode outputs of the robot are the input pins of the controller, and the
two programs run at their own pace: each `digitalRead` of a controller pass falls
at some moment of the robot's loop, perhaps between two of the five writes that
show a mode.  Which output goes to which pin is not in either program, so the
wiring is a parameter.
-/

namespace Sotabots.Led

open Machine Robot

/-! ## The outputs at a moment of a pass -/

/-- The log as it stands after some of the calls of a pass. -/
def During (it : Iteration State Inputs) (now : List Event) : Prop :=
  it.pre.log <:+ now ∧ now <:+ it.post.log

theorem modeValue_of_mem_ledCalls {m : ℕ} (hm : m < 5) {e : Event} (he : e ∈ ledCalls (m : ℤ))
    {j : Fin 5} {on : Bool} (hon : e.modeValue j = some on) : on = decide (j.val = m) := by
  have hall : ∀ (i j : Fin 5), ∀ e ∈ ledCalls (i.val : ℤ),
      e.modeValue j = none ∨ e.modeValue j = some (decide (j.val = i.val)) := by
    decide
  rcases hall ⟨m, hm⟩ j e he with h | h
  · rw [h] at hon
    cases hon
  · rw [h] at hon
    exact (Option.some.inj hon).symm

theorem modeValue_of_mem_bodyCalls {s : State} (hs : IndexTracked s) {r : Reads} {e : Event}
    (he : e ∈ bodyCalls s r) {j : Fin 5} {on : Bool} (hon : e.modeValue j = some on) :
    on = decide (j.val = shownMode s) := by
  have hdevice : e.device = .leds := by
    by_contra hne
    rw [modeValue_of_device_ne hne] at hon
    cases hon
  rw [mem_bodyCalls, hdevice] at he
  unfold shownMode
  rcases hs with ⟨hlow, hhigh⟩ | ⟨hfive, -⟩
  · rw [min_eq_left hhigh]
    refine modeValue_of_mem_ledCalls (m := s.modeIndex.toNat) (by omega) ?_ hon
    rwa [Int.toNat_of_nonneg hlow]
  · -- the pass that wraps the index writes nothing
    have hnone : ledCalls s.modeIndex = [] := by
      rw [hfive]
      decide
    change e ∈ ledCalls s.modeIndex at he
    simp [hnone] at he

/-- At every moment of a pass an output is as the pass found it or as the pass
leaves it. -/
theorem modeOf_during {s : State} (hs : IndexTracked s) {i : Inputs} {now : List Event}
    (hnow : During ⟨s, i, sampledBody s i⟩ now) (j : Fin 5) :
    modeOf j now = s.modeOn j ∨ modeOf j now = decide (j.val = shownMode s) := by
  obtain ⟨part, rfl⟩ := hnow.1
  have hpart : part <:+ bodyCalls s i.reads := by
    have hsuffix : part ++ s.log <:+ bodyCalls s i.reads ++ s.log := by
      have hlog : (sampledBody s i).log = bodyCalls s i.reads ++ s.log := by
        rw [sampledBody, loopBody_eq]
      rw [← hlog]
      exact hnow.2
    obtain ⟨rest, hrest⟩ := hsuffix
    exact ⟨rest, List.append_cancel_right (by rw [List.append_assoc, hrest])⟩
  unfold modeOf
  rw [List.findSome?_append]
  cases hfind : part.findSome? (Event.modeValue j) with
  | none => exact Or.inl rfl
  | some on =>
      right
      obtain ⟨e, he, hon⟩ := List.exists_of_findSome?_eq_some hfind
      exact modeValue_of_mem_bodyCalls hs (hpart.subset he) hon

/-! ## What the controller reads -/

structure Moment (passes : List (Iteration State Inputs)) where
  pass : Iteration State Inputs
  mem : pass ∈ passes
  log : List Event
  during : During pass log

section Wiring

variable (wiring : LightShow → Fin 5) {passes : List (Iteration State Inputs)}

/-- The pins as a controller pass reads them, each at a moment of its own. -/
def pinsAt (at_ : LightShow → Moment passes) : PinReads where
  pin10 := modeOf (wiring .red) (at_ .red).log
  pin9 := modeOf (wiring .blue) (at_ .blue).log
  pin8 := modeOf (wiring .yellow) (at_ .yellow).log
  pin3 := modeOf (wiring .murica) (at_ .murica).log
  pin12 := modeOf (wiring .groovy) (at_ .groovy).log

theorem modeOf_of_selected {at_ : LightShow → Moment passes} {m : LightShow}
    (h : (pinsAt wiring at_).selected = some m) : modeOf (wiring m) (at_ m).log = true := by
  unfold PinReads.selected at h
  split_ifs at h with hred hblue hyellow hmurica hgroovy <;> obtain rfl := Option.some.inj h
  · exact hred
  · exact hblue
  · exact hyellow
  · exact hmurica
  · exact hgroovy

theorem selected_of_only {at_ : LightShow → Moment passes} {m : LightShow}
    (h : ∀ k, modeOf (wiring k) (at_ k).log = decide (k = m)) :
    (pinsAt wiring at_).selected = some m := by
  unfold PinReads.selected pinsAt
  rw [h .red, h .blue, h .yellow, h .murica, h .groovy]
  cases m <;> rfl

/-! ## The two programs together -/

theorem litOnly_of_stretch {p : PeriodRun} (htracked : p.Throughout IndexTracked)
    {before stretch after : List (Iteration State Inputs)} {first : Iteration State Inputs}
    (hsplit : p.passes = before ++ first :: stretch ++ after) {i : ℕ}
    (hmode : ∀ it ∈ first :: stretch, shownMode it.pre = i) {it : Iteration State Inputs}
    (hit : it ∈ stretch) : LitOnly i it.pre := by
  obtain ⟨older, newer, rfl⟩ := List.append_of_mem hit
  -- the pass right before `it`, which shows mode `i` as well
  obtain ⟨q, older', hq⟩ : ∃ q older', first :: older = older' ++ [q] :=
    ⟨(first :: older).getLast (by simp), (first :: older).dropLast,
      (List.dropLast_append_getLast (by simp)).symm⟩
  have hpair : p.passes = (before ++ older') ++ q :: it :: (newer ++ after) := by
    calc p.passes = before ++ (first :: older) ++ it :: (newer ++ after) := by simp [hsplit]
      _ = before ++ (older' ++ [q]) ++ it :: (newer ++ after) := by rw [hq]
      _ = (before ++ older') ++ q :: it :: (newer ++ after) := by simp
  have hmem : q ∈ first :: older := by simp [hq]
  have hpasses : q ∈ p.passes := by simp [hpair]
  have hstart : it.pre = q.post := by
    obtain ⟨s, inputs, hiterations⟩ := passes_eq_iterations p
    exact pre_eq_post (hiterations.symm.trans hpair)
  have hshows : shownMode q.pre = i := hmode q (by simp at hmem ⊢; tauto)
  have hlit := litOnly_sampledBody (htracked.passes q hpasses).1 q.input
  rw [hstart, mk_of_mem_passes hpasses, ← hshows]
  exact hlit

/-- Whenever the pins are read, in whatever passes of a period and between
whichever writes, the controller plays the show of a mode that the robot's pass
at that moment shows or has found lit from the pass before: a reading caught
between two writes never makes it play a third one. -/
theorem selected_mode {session : List PeriodRun} (hsession : Session State.initial session)
    {p : PeriodRun} (hp : p ∈ session) (at_ : LightShow → Moment p.passes) {m : LightShow}
    (h : (pinsAt wiring at_).selected = some m) :
    (wiring m).val = shownMode (at_ m).pass.pre ∨ (at_ m).pass.pre.modeOn (wiring m) = true := by
  have htracked := (hsession.indexTracked p hp).passes _ (at_ m).mem
  have hduring := (at_ m).during
  rw [mk_of_mem_passes (at_ m).mem] at hduring
  have hhigh := modeOf_of_selected wiring h
  rcases modeOf_during htracked.1 hduring (wiring m) with hfound | hshown
  · exact Or.inr (hfound.symm.trans hhigh)
  · rw [hhigh] at hshown
    exact Or.inl (of_decide_eq_true hshown.symm)

def changeInputs : List Inputs :=
  [{ Inputs.ofWinch ⟨false, true, 0, false, 0⟩ with leftTrigger := true },
    .ofWinch ⟨false, true, 0, false, 0⟩, .ofWinch ⟨false, true, 0, false, 0⟩]

def changePeriod : PeriodRun :=
  ⟨.operatorControl changeInputs, State.initial, operatorControl State.initial changeInputs⟩

theorem session_change : Session State.initial [changePeriod] := ⟨rfl, rfl, trivial⟩

def idlePass (s : State) : Iteration State Inputs :=
  ⟨s, .ofWinch ⟨false, true, 0, false, 0⟩, sampledBody s (.ofWinch ⟨false, true, 0, false, 0⟩)⟩

def triggerPass : Iteration State Inputs :=
  ⟨teleopEntry State.initial,
    { Inputs.ofWinch ⟨false, true, 0, false, 0⟩ with leftTrigger := true },
    sampledBody (teleopEntry State.initial)
      { Inputs.ofWinch ⟨false, true, 0, false, 0⟩ with leftTrigger := true }⟩

def changePass : Iteration State Inputs := idlePass triggerPass.post

def steadyPass : Iteration State Inputs := idlePass changePass.post

theorem passes_change : changePeriod.passes = [triggerPass, changePass, steadyPass] := rfl

/-- A moment of a pass, with `k` of its calls still to come. -/
def beforeLast (passes : List (Iteration State Inputs)) {s : State} (h : idlePass s ∈ passes)
    (k : ℕ) (hk : s.log.length ≤ ((idlePass s).post.log.drop k).length) : Moment passes where
  pass := idlePass s
  mem := h
  log := (idlePass s).post.log.drop k
  during := by
    have hsuffix : s.log <:+ (idlePass s).post.log := by
      change s.log <:+ (sampledBody s _).log
      rw [sampledBody, loopBody_eq]
      exact List.suffix_append _ _
    exact ⟨List.suffix_of_suffix_length_le hsuffix (List.drop_suffix k _) hk,
      List.drop_suffix k _⟩

def orderedWiring : LightShow → Fin 5
  | .red => ⟨0, by decide⟩
  | .blue => ⟨1, by decide⟩
  | .yellow => ⟨2, by decide⟩
  | .murica => ⟨3, by decide⟩
  | .groovy => ⟨4, by decide⟩

theorem mem_change : changePass ∈ changePeriod.passes := by
  rw [passes_change]
  simp

def earlyReading : LightShow → Moment changePeriod.passes :=
  fun _ => beforeLast changePeriod.passes mem_change 14 (by decide +kernel)

def lateReading : LightShow → Moment changePeriod.passes :=
  fun _ => beforeLast changePeriod.passes mem_change 12 (by decide +kernel)

theorem selected_mode_change :
    (pinsAt orderedWiring earlyReading).selected = some .red ∧
    (pinsAt orderedWiring lateReading).selected = some .blue ∧
    ((orderedWiring .red).val = shownMode changePass.pre ∨
      changePass.pre.modeOn (orderedWiring .red) = true) ∧
    ((orderedWiring .blue).val = shownMode changePass.pre ∨
      changePass.pre.modeOn (orderedWiring .blue) = true) := by
  have hearly : (pinsAt orderedWiring earlyReading).selected = some .red := by
    decide +kernel
  have hlate : (pinsAt orderedWiring lateReading).selected = some .blue := by
    decide +kernel
  have hmem : changePeriod ∈ [changePeriod] := List.mem_singleton_self _
  exact ⟨hearly, hlate, selected_mode orderedWiring session_change hmem earlyReading hearly,
    selected_mode orderedWiring session_change hmem lateReading hlate⟩

end Wiring

end Sotabots.Led
