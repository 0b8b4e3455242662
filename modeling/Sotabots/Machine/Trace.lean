import Mathlib.Data.List.Induction
/-!
# Runs of an input-driven machine

A control loop is a function `step : σ → ι → σ`: one pass of the loop body maps
the state at its start and the inputs sampled during the pass to the state at
its end.  `iterations step s inputs` lists every pass of a finite run with its
start state, inputs and end state, so a statement about "every iteration of
every run" is a statement about the members of one list.

Nothing here mentions a particular machine.  The rules below turn a fact about
one pass into a fact about whole runs.
-/

namespace Sotabots.Machine

/-- One pass of a loop body: the state before it, what it read, the state after. -/
@[ext] structure Iteration (σ ι : Type*) where
  pre : σ
  input : ι
  post : σ

variable {σ ι : Type*} {step : σ → ι → σ} {s : σ}

def run (step : σ → ι → σ) (s : σ) (inputs : List ι) : σ :=
  inputs.foldl step s

def iterations (step : σ → ι → σ) : σ → List ι → List (Iteration σ ι)
  | _, [] => []
  | s, i :: rest => ⟨s, i, step s i⟩ :: iterations step (step s i) rest

@[simp] theorem run_nil : run step s [] = s := rfl

@[simp] theorem run_cons (i : ι) (rest : List ι) :
    run step s (i :: rest) = run step (step s i) rest := rfl

@[simp] theorem run_concat (inputs : List ι) (i : ι) :
    run step s (inputs ++ [i]) = step (run step s inputs) i := by
  simp [run]

theorem run_append (first second : List ι) :
    run step s (first ++ second) = run step (run step s first) second :=
  List.foldl_append

@[simp] theorem iterations_nil : iterations step s [] = [] := rfl

@[simp] theorem iterations_cons (i : ι) (rest : List ι) :
    iterations step s (i :: rest) =
      ⟨s, i, step s i⟩ :: iterations step (step s i) rest := rfl

theorem iterations_append (first second : List ι) :
    iterations step s (first ++ second) =
      iterations step s first ++ iterations step (run step s first) second := by
  induction first generalizing s with
  | nil => rfl
  | cons i rest ih => simp [ih]

theorem iterations_concat (inputs : List ι) (i : ι) :
    iterations step s (inputs ++ [i]) =
      iterations step s inputs ++
        [⟨run step s inputs, i, step (run step s inputs) i⟩] := by
  rw [iterations_append]
  rfl

/-- A pass picked out of a run splits the inputs at the same place. -/
theorem iterations_split {inputs : List ι} {before after : List (Iteration σ ι)}
    {it : Iteration σ ι} (h : iterations step s inputs = before ++ it :: after) :
    ∃ first i rest, inputs = first ++ i :: rest ∧
      before = iterations step s first ∧
      it = ⟨run step s first, i, step (run step s first) i⟩ := by
  induction before generalizing s inputs with
  | nil =>
      cases inputs with
      | nil => simp at h
      | cons i rest =>
          simp only [iterations_cons, List.nil_append, List.cons.injEq] at h
          exact ⟨[], i, rest, rfl, rfl, h.1.symm⟩
  | cons b before ih =>
      cases inputs with
      | nil => simp at h
      | cons i rest =>
          simp only [iterations_cons, List.cons_append, List.cons.injEq] at h
          obtain ⟨first, j, tail, rfl, rfl, rfl⟩ := ih h.2
          exact ⟨i :: first, j, tail, rfl, by rw [iterations_cons, h.1], rfl⟩

theorem iterations_take (inputs : List ι) (n : ℕ) :
    (iterations step s inputs).take n = iterations step s (inputs.take n) := by
  induction n generalizing s inputs with
  | zero => rfl
  | succ n ih =>
      cases inputs with
      | nil => rfl
      | cons i rest => simp [ih]

theorem iterations_drop (inputs : List ι) (n : ℕ) :
    (iterations step s inputs).drop n =
      iterations step (run step s (inputs.take n)) (inputs.drop n) := by
  induction n generalizing s inputs with
  | zero => rfl
  | succ n ih =>
      cases inputs with
      | nil => rfl
      | cons i rest => simp [ih]

theorem iterations_segment {inputs : List ι} {before stretch after : List (Iteration σ ι)}
    (h : iterations step s inputs = before ++ stretch ++ after) :
    ∃ t segment, stretch = iterations step t segment := by
  refine ⟨run step s (inputs.take before.length),
    (inputs.drop before.length).take stretch.length, ?_⟩
  rw [← iterations_take, ← iterations_drop, h]
  simp

theorem pre_eq_post {inputs : List ι} {before after : List (Iteration σ ι)}
    {first second : Iteration σ ι}
    (h : iterations step s inputs = before ++ first :: second :: after) :
    second.pre = first.post := by
  have hpair : iterations step s inputs = before ++ [first, second] ++ after := by
    simpa using h
  obtain ⟨t, segment, hsegment⟩ := iterations_segment hpair
  match segment with
  | [] => simp at hsegment
  | [i] => simp at hsegment
  | i :: j :: rest =>
      simp only [iterations_cons, List.cons.injEq] at hsegment
      rw [hsegment.1, hsegment.2.1]

theorem map_input_iterations (inputs : List ι) :
    (iterations step s inputs).map Iteration.input = inputs := by
  induction inputs generalizing s with
  | nil => rfl
  | cons i rest ih => rw [iterations_cons, List.map_cons, ih]

theorem forall_iterations_input {P : ι → Prop} (inputs : List ι) :
    (∀ it ∈ iterations step s inputs, P it.input) ↔ ∀ i ∈ inputs, P i := by
  induction inputs generalizing s with
  | nil => simp
  | cons i rest ih => simp [ih]

theorem post_eq_step {inputs : List ι} {it : Iteration σ ι}
    (h : it ∈ iterations step s inputs) : it.post = step it.pre it.input := by
  obtain ⟨before, after, hsplit⟩ := List.append_of_mem h
  obtain ⟨first, i, rest, -, -, rfl⟩ := iterations_split hsplit
  rfl

/-! ## Invariants -/

section Invariant

variable {C : Iteration σ ι → Prop}

/-- A property of the history and the current state that each admissible pass
extends holds after every run whose passes are all admissible. -/
theorem history_invariant {I : List (Iteration σ ι) → σ → Prop} (hinit : I [] s)
    (hstep : ∀ before t i, I before t → C ⟨t, i, step t i⟩ →
      I (before ++ [⟨t, i, step t i⟩]) (step t i))
    (inputs : List ι) (hC : ∀ it ∈ iterations step s inputs, C it) :
    I (iterations step s inputs) (run step s inputs) := by
  induction inputs using List.reverseRecOn with
  | nil => exact hinit
  | append_singleton inputs i ih =>
      rw [iterations_concat] at hC ⊢
      rw [run_concat]
      refine hstep _ _ _ (ih fun it hit => hC it (List.mem_append_left _ hit)) ?_
      exact hC _ (by simp)

theorem history_invariant_at {I : List (Iteration σ ι) → σ → Prop} (hinit : I [] s)
    (hstep : ∀ before t i, I before t → C ⟨t, i, step t i⟩ →
      I (before ++ [⟨t, i, step t i⟩]) (step t i))
    {inputs : List ι} {before after : List (Iteration σ ι)} {it : Iteration σ ι}
    (hsplit : iterations step s inputs = before ++ it :: after)
    (hC : ∀ x ∈ before, C x) : I before it.pre := by
  obtain ⟨first, i, rest, -, rfl, rfl⟩ := iterations_split hsplit
  exact history_invariant hinit hstep first hC

theorem invariant_at {I : σ → Prop} (hinit : I s)
    (hstep : ∀ t i, I t → C ⟨t, i, step t i⟩ → I (step t i))
    {inputs : List ι} (hC : ∀ it ∈ iterations step s inputs, C it) :
    ∀ it ∈ iterations step s inputs, I it.pre ∧ I it.post := by
  intro it hit
  obtain ⟨before, after, hsplit⟩ := List.append_of_mem hit
  have hpre : I it.pre :=
    history_invariant_at (I := fun _ t => I t) hinit (fun _ => hstep) hsplit
      fun x hx => hC x (by simp [hsplit, hx])
  refine ⟨hpre, ?_⟩
  have hpost := post_eq_step hit
  rw [hpost]
  refine hstep _ _ hpre ?_
  rw [← hpost]
  exact hC it hit

theorem invariant_of_step {I : σ → Prop} (hinit : I s)
    (hstep : ∀ t i, I t → I (step t i)) (inputs : List ι) :
    ∀ it ∈ iterations step s inputs, I it.pre ∧ I it.post :=
  invariant_at (C := fun _ => True) hinit (fun t i h _ => hstep t i h) fun _ _ => trivial

/-- An exact safety condition.  If admissible passes preserve `I`, an
admissible pass from `I` is safe, and an inadmissible one never is, then a run
is safe throughout exactly when it is admissible throughout. -/
theorem safe_iff_admissible {I : σ → Prop} {P : Iteration σ ι → Prop} (hinit : I s)
    (hstep : ∀ t i, I t → C ⟨t, i, step t i⟩ → I (step t i))
    (hsafe : ∀ t i, I t → C ⟨t, i, step t i⟩ → P ⟨t, i, step t i⟩)
    (hexact : ∀ t i, P ⟨t, i, step t i⟩ → C ⟨t, i, step t i⟩) (inputs : List ι) :
    (∀ it ∈ iterations step s inputs, P it) ↔ ∀ it ∈ iterations step s inputs, C it := by
  have hmk : ∀ it ∈ iterations step s inputs, it = ⟨it.pre, it.input, step it.pre it.input⟩ :=
    fun it hit => by rw [← post_eq_step hit]
  constructor
  · intro hP it hit
    rw [hmk it hit]
    apply hexact
    rw [← hmk it hit]
    exact hP it hit
  · intro hC it hit
    have hpre := (invariant_at hinit hstep hC it hit).1
    rw [hmk it hit]
    apply hsafe _ _ hpre
    rw [← hmk it hit]
    exact hC it hit

end Invariant

/-! ## Simulation -/

/-- If one pass commutes with a view of the state and a view of the inputs, whole
runs do. -/
theorem run_map {τ κ : Type*} {f : σ → τ} {g : ι → κ} {step' : τ → κ → τ}
    (hsim : ∀ t i, f (step t i) = step' (f t) (g i)) (inputs : List ι) :
    f (run step s inputs) = run step' (f s) (inputs.map g) := by
  induction inputs generalizing s with
  | nil => rfl
  | cons i rest ih => rw [run_cons, ih, List.map_cons, run_cons, hsim]

/-! ## Two runs side by side

Non-interference is a statement about pairs of runs: if the inputs agree on a
key, the observations agree.  The rules here reduce it to one pair of passes, by
an unwinding relation `R` between the two states.  The first rule is exact: the
observations agree precisely when every pair of passes meets a condition `C`. -/

section TwoRuns

variable {τ κ : Type*} {obs : σ → τ} {key : ι → κ} {R : σ → σ → Prop} {t : σ}
  {first second : List ι}

/-- What is seen of a run: the state at the end of each pass, through `obs`. -/
def observations (step : σ → ι → σ) (obs : σ → τ) (s : σ) (inputs : List ι) : List τ :=
  (iterations step s inputs).map fun it => obs it.post

def pairs (step : σ → ι → σ) (s t : σ) (first second : List ι) :
    List (Iteration σ ι × Iteration σ ι) :=
  (iterations step s first).zip (iterations step t second)

theorem observations_eq_iff {C : Iteration σ ι → Iteration σ ι → Prop}
    (hexact : ∀ s t i j, R s t → key i = key j →
      (obs (step s i) = obs (step t j) ↔ C ⟨s, i, step s i⟩ ⟨t, j, step t j⟩))
    (hkeep : ∀ s t i j, R s t → key i = key j → C ⟨s, i, step s i⟩ ⟨t, j, step t j⟩ →
      R (step s i) (step t j))
    (hR : R s t) (hkey : first.map key = second.map key) :
    observations step obs s first = observations step obs t second ↔
      ∀ p ∈ pairs step s t first second, C p.1 p.2 := by
  unfold observations pairs
  induction first generalizing s t second with
  | nil =>
      have hnil : second = [] := by simpa using hkey.symm
      simp [hnil]
  | cons i first ih =>
      cases second with
      | nil => simp at hkey
      | cons j second =>
          simp only [List.map_cons, List.cons.injEq] at hkey
          obtain ⟨hij, hrest⟩ := hkey
          simp only [iterations_cons, List.map_cons, List.zip_cons_cons, List.cons.injEq,
            List.forall_mem_cons, hexact s t i j hR hij]
          -- the tails are comparable only once the first pair meets the condition
          apply and_congr_right
          intro hC
          exact ih (hkeep s t i j hR hij hC) hrest

/-- Non-interference: a relation that passes with equal keys keep, and that the
observation cannot look behind. -/
theorem observations_eq (hobs : ∀ s t, R s t → obs s = obs t)
    (hkeep : ∀ s t i j, R s t → key i = key j → R (step s i) (step t j))
    (hR : R s t) (hkey : first.map key = second.map key) :
    observations step obs s first = observations step obs t second := by
  have hexact := observations_eq_iff (C := fun _ _ => True)
    (fun s t i j hR hij => iff_true_intro (hobs _ _ (hkeep s t i j hR hij)))
    (fun s t i j hR hij _ => hkeep s t i j hR hij) hR hkey
  exact hexact.mpr fun _ _ => trivial

end TwoRuns

/-! ## Machines that can refuse a move

A step that is only enabled in some states is a partial function, and a run is a
list of moves that were all enabled.  Several parties interleave in such a run in
every way their guards allow. -/

section Guarded

variable {α : Type*} {step : σ → α → Option σ} {t : σ}

/-- The state after the moves, if each was enabled in its turn. -/
def guardedRun (step : σ → α → Option σ) : σ → List α → Option σ
  | s, [] => some s
  | s, a :: rest => (step s a).bind fun t => guardedRun step t rest

theorem guardedRun_cons {a : α} {rest : List α} (h : guardedRun step s (a :: rest) = some t) :
    ∃ u, step s a = some u ∧ guardedRun step u rest = some t :=
  Option.bind_eq_some_iff.mp h

theorem guarded_invariant {I : σ → Prop} (hstep : ∀ s a t, I s → step s a = some t → I t)
    {moves : List α} (hs : I s) (h : guardedRun step s moves = some t) : I t := by
  induction moves generalizing s with
  | nil =>
      obtain rfl : s = t := Option.some.inj h
      exact hs
  | cons a rest ih =>
      obtain ⟨u, hu, hrest⟩ := guardedRun_cons h
      exact ih (hstep s a u hs hu) hrest

end Guarded

end Sotabots.Machine
