import Sotabots.Machine.Trace
/-!
# Past-time properties of runs

`Since P Q xs` is the past operator "`P` happened, and `Q` at everything after
it".  A flag that one kind of pass sets and another kind clears is exactly such
a property of the history; `flag_iff_since` is that correspondence for any
machine, and is how statements about flags become statements about which passes
were executed before.
-/

namespace Sotabots.Machine

variable {α : Type*} {P Q : α → Prop}

/-- Some entry satisfies `P` and every later one satisfies `Q`. -/
def Since (P Q : α → Prop) (xs : List α) : Prop :=
  ∃ older x newer, xs = older ++ x :: newer ∧ P x ∧ ∀ y ∈ newer, Q y

def SinceAt (P : List α → α → Prop) (Q : α → Prop) (xs : List α) : Prop :=
  ∃ older x newer, xs = older ++ x :: newer ∧ P older x ∧ ∀ y ∈ newer, Q y

theorem sinceAt_nil {P : List α → α → Prop} : ¬ SinceAt P Q [] := by
  rintro ⟨older, x, newer, h, -⟩
  simp at h

theorem sinceAt_concat {P : List α → α → Prop} (xs : List α) (x : α) :
    SinceAt P Q (xs ++ [x]) ↔ P xs x ∨ (SinceAt P Q xs ∧ Q x) := by
  constructor
  · rintro ⟨older, y, newer, h, hy, hnewer⟩
    induction newer using List.reverseRecOn with
    | nil =>
        obtain ⟨rfl, rfl⟩ := List.append_singleton_inj.mp h
        exact Or.inl hy
    | append_singleton newer z _ =>
        rw [← List.cons_append, ← List.append_assoc] at h
        obtain ⟨rfl, rfl⟩ := List.append_singleton_inj.mp h
        refine Or.inr ⟨⟨older, y, newer, rfl, hy, ?_⟩, hnewer _ (by simp)⟩
        exact fun w hw => hnewer w (List.mem_append_left _ hw)
  · rintro (hx | ⟨⟨older, y, newer, rfl, hy, hnewer⟩, hx⟩)
    · exact ⟨xs, x, [], rfl, hx, by simp⟩
    · refine ⟨older, y, newer ++ [x], by simp, hy, ?_⟩
      intro w hw
      rcases List.mem_append.mp hw with hw | hw
      · exact hnewer w hw
      · rwa [List.mem_singleton.mp hw]

@[simp] theorem since_nil : ¬ Since P Q [] :=
  sinceAt_nil

@[simp] theorem since_concat (xs : List α) (x : α) :
    Since P Q (xs ++ [x]) ↔ P x ∨ (Since P Q xs ∧ Q x) :=
  sinceAt_concat xs x

/-! ## The stretch from the most recent entry of a kind -/

/-- `R` holds of the stretch that starts at the most recent entry with `P`. -/
def SinceLatest (P : α → Prop) (R : List α → Prop) (xs : List α) : Prop :=
  ∃ older x newer, xs = older ++ x :: newer ∧ P x ∧ (∀ y ∈ newer, ¬ P y) ∧ R (x :: newer)

theorem SinceLatest.mono {R R' : List α → Prop} {xs : List α} (h : SinceLatest P R xs)
    (hR : ∀ ys, R ys → R' ys) : SinceLatest P R' xs := by
  obtain ⟨older, x, newer, hxs, hx, hnewer, hstretch⟩ := h
  exact ⟨older, x, newer, hxs, hx, hnewer, hR _ hstretch⟩

theorem sinceLatest_concat_self {R : List α → Prop} {x : α} (xs : List α) (hx : P x)
    (hR : R [x]) : SinceLatest P R (xs ++ [x]) :=
  ⟨xs, x, [], rfl, hx, by simp, hR⟩

theorem SinceLatest.concat {R R' : List α → Prop} {xs : List α} {x : α}
    (h : SinceLatest P R xs) (hx : ¬ P x) (hR : ∀ ys, R ys → R' (ys ++ [x])) :
    SinceLatest P R' (xs ++ [x]) := by
  obtain ⟨older, y, newer, rfl, hy, hnewer, hstretch⟩ := h
  refine ⟨older, y, newer ++ [x], by simp, hy, ?_, by simpa using hR _ hstretch⟩
  intro z hz
  rcases List.mem_append.mp hz with hz | hz
  · exact hnewer z hz
  · rwa [List.mem_singleton.mp hz]

/-! ## Set and cleared flags -/

section Flag

variable {σ ι : Type*} {step : σ → ι → σ} {s : σ}

/-- A condition on the history and the state that `set` passes establish and
`clear` passes end holds exactly when a `set` pass has happened with no `clear`
pass since, `past` being what happened before the run. -/
theorem flag_iff_sinceAt (flag : List (Iteration σ ι) → σ → Prop)
    (set : List (Iteration σ ι) → Iteration σ ι → Prop) (clear : Iteration σ ι → Prop)
    {past : List (Iteration σ ι)}
    (hpast : flag past s ↔ SinceAt set (fun it => ¬ clear it) past)
    (hstep : ∀ before t i, flag (before ++ [⟨t, i, step t i⟩]) (step t i) ↔
      set before ⟨t, i, step t i⟩ ∨ (flag before t ∧ ¬ clear ⟨t, i, step t i⟩))
    (inputs : List ι) :
    flag (past ++ iterations step s inputs) (run step s inputs) ↔
      SinceAt set (fun it => ¬ clear it) (past ++ iterations step s inputs) := by
  induction inputs using List.reverseRecOn with
  | nil => simpa using hpast
  | append_singleton inputs i ih =>
      rw [run_concat, iterations_concat, ← List.append_assoc, sinceAt_concat, hstep, ih]

variable (flag : σ → Prop) (set clear : Iteration σ ι → Prop)

theorem flag_iff_since {past : List (Iteration σ ι)}
    (hpast : flag s ↔ Since set (fun it => ¬ clear it) past)
    (hstep : ∀ t i, flag (step t i) ↔
      set ⟨t, i, step t i⟩ ∨ (flag t ∧ ¬ clear ⟨t, i, step t i⟩))
    (inputs : List ι) :
    flag (run step s inputs) ↔
      Since set (fun it => ¬ clear it) (past ++ iterations step s inputs) :=
  flag_iff_sinceAt (fun _ => flag) (fun _ => set) clear hpast (fun _ => hstep) inputs

theorem flag_at_iff_since (hinit : ¬ flag s)
    (hstep : ∀ t i, flag (step t i) ↔
      set ⟨t, i, step t i⟩ ∨ (flag t ∧ ¬ clear ⟨t, i, step t i⟩))
    {inputs : List ι} {before after : List (Iteration σ ι)} {it : Iteration σ ι}
    (hsplit : iterations step s inputs = before ++ it :: after) :
    (flag it.pre ↔ Since set (fun it => ¬ clear it) before) ∧
      (flag it.post ↔ Since set (fun it => ¬ clear it) (before ++ [it])) := by
  obtain ⟨first, i, rest, -, rfl, rfl⟩ := iterations_split hsplit
  have hstart : flag s ↔ Since set (fun it => ¬ clear it) [] := by simpa using hinit
  have hrun : ∀ inputs, flag (run step s inputs) ↔
      Since set (fun it => ¬ clear it) (iterations step s inputs) :=
    flag_iff_since flag set clear hstart hstep
  refine ⟨hrun first, ?_⟩
  rw [← iterations_concat, ← hrun, run_concat]

end Flag

end Sotabots.Machine
