import Sotabots.Robot.Winch
/-!
# LED modes

`modeIndex` chooses which of the five mode outputs is on.  The outputs are written
at the top of a pass and the index is moved at the bottom, up to 5; the pass that
finds it at 5 only sets it back to 0 and writes no output.  That pass shows mode 4
a second time, so a trigger held through it runs one step behind from there on.
-/

namespace Sotabots.Robot

open Machine

/-! ## The mode outputs -/

def Event.modeValue (j : Fin 5) : Event → Option Bool
  | .mode i on => if i = j then some on else none
  | _ => none

def modeOf (j : Fin 5) (log : List Event) : Bool :=
  (log.findSome? (Event.modeValue j)).getD false

def State.modeOn (s : State) (j : Fin 5) : Bool := modeOf j s.log

def LitOnly (i : ℕ) (s : State) : Prop :=
  ∀ j : Fin 5, s.modeOn j = decide (j.val = i)

theorem LitOnly.existsUnique {i : ℕ} {s : State} (h : LitOnly i s) (hi : i < 5) :
    ∃! j : Fin 5, s.modeOn j = true := by
  refine ⟨⟨i, hi⟩, by simp [h _], ?_⟩
  intro j hj
  rw [h j, decide_eq_true_iff] at hj
  exact Fin.ext hj

theorem LitOnly.unique {i i' : ℕ} {s : State} (h : LitOnly i s) (h' : LitOnly i' s)
    (hi : i < 5) : i = i' := by
  have hon := (h ⟨i, hi⟩).symm.trans (h' ⟨i, hi⟩)
  simpa using hon

/-! ## One pass -/

theorem modeValue_of_device_ne {j : Fin 5} {e : Event} (h : e.device ≠ .leds) :
    e.modeValue j = none := by
  cases e with
  | mode i on => exact absurd rfl h
  | _ => rfl

theorem findSome?_ledCalls (i j : Fin 5) :
    (ledCalls (i.val : ℤ)).findSome? (Event.modeValue j) = some (decide (j.val = i.val)) := by
  revert i j
  decide

theorem modeOn_loopBody (s : State) (r : Reads) (j : Fin 5) :
    (loopBody s r).modeOn j =
      (((ledCalls s.modeIndex).findSome? (Event.modeValue j)).or
        (s.log.findSome? (Event.modeValue j))).getD false := by
  have hleds : ∀ log : List Event, (deviceCalls .leds log).findSome? (Event.modeValue j) =
      log.findSome? (Event.modeValue j) :=
    findSome?_deviceCalls fun _ he => modeValue_of_device_ne he
  have hlog := deviceLog_loopBody s r .leds
  unfold State.modeOn modeOf
  rw [← hleds]
  change (((loopBody s r).deviceLog .leds).findSome? (Event.modeValue j)).getD false = _
  rw [hlog, List.findSome?_append, State.deviceLog, hleds]
  rfl

theorem litOnly_loopBody {s : State} {m : ℕ} (hs : s.modeIndex = m) (hm : m < 5) (r : Reads) :
    LitOnly m (loopBody s r) := by
  intro j
  have hcalls := findSome?_ledCalls ⟨m, hm⟩ j
  rw [modeOn_loopBody, hs, hcalls]
  rfl

theorem litOnly_loopBody_wrap {s : State} {i : ℕ} (hs : s.modeIndex = 5) (hlit : LitOnly i s)
    (r : Reads) : LitOnly i (loopBody s r) := by
  intro j
  have hcalls : ledCalls 5 = [] := by decide
  rw [modeOn_loopBody, hs, hcalls]
  exact hlit j

theorem modeIndex_sampledBody (s : State) (i : Inputs) :
    (sampledBody s i).modeIndex =
      nextMode (wrapMode s.modeIndex) i.leftTrigger i.left7 i.left8 := by
  rw [sampledBody, loopBody_eq]
  rfl

/-- A pass that moves the modes on: the left trigger, and neither button 7 nor 8. -/
structure TriggerOnly (i : Inputs) : Prop where
  leftTrigger : i.leftTrigger = true
  left7 : i.left7 = false
  left8 : i.left8 = false

theorem modeIndex_of_triggerOnly {i : Inputs} (hi : TriggerOnly i) (s : State) :
    (sampledBody s i).modeIndex = wrapMode s.modeIndex + 1 := by
  rw [modeIndex_sampledBody, hi.leftTrigger, hi.left7, hi.left8]
  rfl

/-! ## Whole periods -/

/-- The index is one of the five modes, or 5 with the last mode showing. -/
def IndexTracked (s : State) : Prop :=
  (0 ≤ s.modeIndex ∧ s.modeIndex ≤ 4) ∨ (s.modeIndex = 5 ∧ LitOnly 4 s)

def shownMode (s : State) : ℕ := (min s.modeIndex 4).toNat

theorem litOnly_sampledBody {s : State} (hs : IndexTracked s) (i : Inputs) :
    LitOnly (shownMode s) (sampledBody s i) := by
  unfold shownMode
  rcases hs with ⟨hlow, hhigh⟩ | ⟨hfive, hlit⟩
  · rw [min_eq_left hhigh]
    apply litOnly_loopBody <;> omega
  · rw [hfive]
    exact litOnly_loopBody_wrap hfive hlit i.reads

theorem modeIndex_sampledBody_cases {s : State} (hs : IndexTracked s) (i : Inputs) :
    (0 ≤ (sampledBody s i).modeIndex ∧ (sampledBody s i).modeIndex ≤ 4) ∨
      ((sampledBody s i).modeIndex = 5 ∧ s.modeIndex = 4 ∧ TriggerOnly i) := by
  have hwrap : (s.modeIndex = 5 ∧ wrapMode s.modeIndex = 0) ∨
      (0 ≤ s.modeIndex ∧ s.modeIndex ≤ 4 ∧ wrapMode s.modeIndex = s.modeIndex) := by
    unfold wrapMode
    rcases hs with h | h
    · right
      rw [if_neg (by omega)]
      omega
    · left
      rw [if_pos (by omega)]
      exact ⟨h.1, rfl⟩
  rw [modeIndex_sampledBody]
  unfold nextMode
  split_ifs with h8 h7 htrigger
  · left
    omega
  · left
    omega
  · by_cases hfour : s.modeIndex = 4
    · right
      refine ⟨by omega, hfour, htrigger, ?_, ?_⟩
      · simpa using h7
      · simpa using h8
    · left
      omega
  · left
    omega

theorem indexTracked_sampledBody {s : State} (hs : IndexTracked s) (i : Inputs) :
    IndexTracked (sampledBody s i) := by
  rcases modeIndex_sampledBody_cases hs i with h | ⟨hfive, hfour, -⟩
  · exact Or.inl h
  · have hlit := litOnly_sampledBody hs i
    rw [shownMode, hfour] at hlit
    exact Or.inr ⟨hfive, hlit⟩

theorem indexTracked_at {inputs : List Inputs} {it : Iteration State Inputs}
    (hit : it ∈ teleopTrace State.initial inputs) : IndexTracked it.pre :=
  (invariant_of_step (I := IndexTracked) (Or.inl (by decide))
    (fun _ i h => indexTracked_sampledBody h i) inputs it hit).1

/-- Exactly one output is on at the end of every pass, and a stretch of passes
that only hold the left trigger, entered at mode `m`, shows the modes from `m` on
in a circle. -/
structure LedCycling (trace : List (Iteration State Inputs)) : Prop where
  one_on : ∀ it ∈ trace, ∃! j : Fin 5, it.post.modeOn j = true
  cycles : ∀ before stretch after, trace = before ++ stretch ++ after →
    (∀ it ∈ stretch, TriggerOnly it.input) →
    ∀ m : ℕ, m < 5 → (∀ first, stretch.head? = some first → first.pre.modeIndex = m) →
    ∀ k it, stretch[k]? = some it → LitOnly ((m + k) % 5) it.post

theorem one_on_teleopTrace {inputs : List Inputs} {it : Iteration State Inputs}
    (hit : it ∈ teleopTrace State.initial inputs) : ∃! j : Fin 5, it.post.modeOn j = true := by
  rw [post_eq_step hit]
  have hlit := litOnly_sampledBody (indexTracked_at hit) it.input
  refine hlit.existsUnique ?_
  unfold shownMode
  omega

theorem cycles_of_no_wrap {s : State} {inputs : List Inputs} {m : ℕ} (hs : s.modeIndex = m)
    (hpass : ∀ it ∈ iterations sampledBody s inputs,
      TriggerOnly it.input ∧ it.pre.modeIndex ≤ 4) :
    ∀ k it, (iterations sampledBody s inputs)[k]? = some it → LitOnly ((m + k) % 5) it.post := by
  induction inputs generalizing s m with
  | nil => simp
  | cons i rest ih =>
      rw [iterations_cons, List.forall_mem_cons] at hpass
      obtain ⟨⟨htrigger, hhigh⟩, hrest⟩ := hpass
      simp only [hs] at htrigger hhigh
      intro k it hk
      cases k with
      | zero =>
          simp only [iterations_cons, List.getElem?_cons_zero, Option.some.injEq] at hk
          subst hk
          rw [Nat.add_zero, Nat.mod_eq_of_lt (by omega)]
          exact litOnly_loopBody hs (by omega) i.reads
      | succ k =>
          -- if there is a next pass, it is one of those that start at 4 or below
          have hnext : (sampledBody s i).modeIndex = (m + 1 : ℕ) := by
            rw [modeIndex_of_triggerOnly htrigger, hs, wrapMode, if_neg (by omega)]
            omega
          rw [iterations_cons, List.getElem?_cons_succ] at hk
          have hlit := ih hnext hrest k it hk
          rwa [Nat.add_assoc, Nat.add_comm 1 k] at hlit

theorem moved_before_five {inputs : List Inputs} {it : Iteration State Inputs}
    (hit : it ∈ teleopTrace State.initial inputs) (hfive : it.pre.modeIndex = 5) :
    ∃ older prev after, teleopTrace State.initial inputs = older ++ prev :: it :: after ∧
      prev.pre.modeIndex = 4 ∧ TriggerOnly prev.input := by
  obtain ⟨before, after, hsplit⟩ := List.append_of_mem hit
  rcases List.eq_nil_or_concat before with rfl | ⟨older, prev, rfl⟩
  · -- the first pass of a period starts at index 0
    obtain ⟨first, i, rest, -, hnil, rfl⟩ := iterations_split hsplit
    obtain rfl : first = [] := by
      cases first with
      | nil => rfl
      | cons i rest => simp at hnil
    exact absurd (show (0 : ℤ) = 5 from hfive) (by decide)
  · have hpair : teleopTrace State.initial inputs = older ++ prev :: it :: after := by
      simpa using hsplit
    have hprev : prev ∈ teleopTrace State.initial inputs := by simp [hpair]
    rw [pre_eq_post hpair, post_eq_step hprev] at hfive
    rcases modeIndex_sampledBody_cases (indexTracked_at hprev) prev.input with
      hlow | ⟨-, hfour, htrigger⟩
    · omega
    · exact ⟨older, prev, after, hpair, hfour, htrigger⟩

/-- The modes cycle exactly on the runs that never hold the trigger alone in a
pass that starts at index 5. -/
theorem ledCycling_iff (inputs : List Inputs) :
    LedCycling (teleopTrace State.initial inputs) ↔
      ∀ it ∈ teleopTrace State.initial inputs,
        TriggerOnly it.input → it.pre.modeIndex ≤ 4 := by
  constructor
  · intro h it hit htrigger
    rcases indexTracked_at hit with hlow | ⟨hfive, -⟩
    · exact hlow.2
    · -- the pass and the one before it are a stretch from 4, whose second pass shows 4
      obtain ⟨older, prev, after, hpair, hfour, hprev⟩ := moved_before_five hit hfive
      have hzero : LitOnly 0 it.post :=
        h.cycles older [prev, it] after (by simp [hpair])
          (by simp [htrigger, hprev]) 4 (by omega) (by simp [hfour]) 1 it rfl
      have hshown := litOnly_sampledBody (indexTracked_at hit) it.input
      rw [← post_eq_step hit, shownMode, hfive] at hshown
      have hsame : 0 = 4 := hzero.unique hshown (by omega)
      omega
  · intro h
    refine ⟨fun it hit => one_on_teleopTrace hit, ?_⟩
    intro before stretch after hsplit htrigger m _ hfirst
    obtain ⟨s, segment, rfl⟩ := iterations_segment hsplit
    cases segment with
    | nil => simp
    | cons i rest =>
        refine cycles_of_no_wrap (hfirst _ rfl) fun it hit => ?_
        refine ⟨htrigger it hit, h it ?_ (htrigger it hit)⟩
        rw [hsplit]
        exact List.mem_append_left _ (List.mem_append_right _ hit)

def triggerHeld : Inputs :=
  { Inputs.ofWinch ⟨false, true, 0, false, 0⟩ with leftTrigger := true }

/-- The trigger held for six passes from power-on: the sixth shows mode 4 again. -/
theorem not_ledCycling_held :
    ¬ LedCycling (teleopTrace State.initial (List.replicate 6 triggerHeld)) := by
  intro h
  have htrigger : ∀ it ∈ teleopTrace State.initial (List.replicate 6 triggerHeld),
      TriggerOnly it.input := by
    apply (forall_iterations_input (P := TriggerOnly) _).mpr
    intro i hi
    rw [List.eq_of_mem_replicate hi]
    exact ⟨rfl, rfl, rfl⟩
  have hlit := h.cycles [] _ [] (List.append_nil _).symm htrigger 0 (by omega)
    (by rintro first ⟨rfl⟩; rfl) 5 _ rfl
  exact absurd (hlit ⟨0, by omega⟩) (by decide +kernel)

end Sotabots.Robot
