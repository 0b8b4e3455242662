import Mathlib.Logic.Function.Iterate
import Mathlib.Data.Nat.Find
import Mathlib.Order.Bounds.Basic
/-!
# `while` loops

A loop whose test may itself change the state, because evaluating it consumes
sensor readings.  `Loop.exec fuel` runs at most `fuel` tests; `Loop.Exits` hides
the fuel.  `exits_iff` turns an exit into the index of the first failing test,
and `exists_exits_iff` says when there is one.
-/

namespace Sotabots.Machine

/-- `while (test) { body }`, where `test` also returns the state it leaves. -/
structure Loop (σ : Type*) where
  test : σ → Bool × σ
  body : σ → σ

namespace Loop

variable {σ : Type*} {L : Loop σ} {s t : σ}

def exec (L : Loop σ) : ℕ → σ → Option σ
  | 0, _ => none
  | fuel + 1, s =>
      if (L.test s).1 then exec L fuel (L.body (L.test s).2) else some (L.test s).2

def next (L : Loop σ) (s : σ) : σ := L.body (L.test s).2

/-- The loop, started in `s`, is left in `t`. -/
def Exits (L : Loop σ) (s t : σ) : Prop := ∃ fuel, L.exec fuel s = some t

theorem exec_succ_of_test {fuel : ℕ} (h : (L.test s).1 = true) :
    L.exec (fuel + 1) s = L.exec fuel (L.next s) := by
  rw [exec, if_pos h]
  rfl

theorem exec_succ_of_not_test {fuel : ℕ} (h : (L.test s).1 = false) :
    L.exec (fuel + 1) s = some (L.test s).2 := by
  rw [exec, if_neg (by simp [h])]

theorem exec_mono {fuel fuel' : ℕ} (hle : fuel ≤ fuel') (h : L.exec fuel s = some t) :
    L.exec fuel' s = some t := by
  induction fuel generalizing s fuel' with
  | zero => simp [exec] at h
  | succ fuel ih =>
      obtain ⟨more, rfl⟩ : ∃ more, fuel' = more + 1 := ⟨fuel' - 1, by omega⟩
      cases htest : (L.test s).1 with
      | true =>
          rw [exec_succ_of_test htest] at h ⊢
          exact ih (by omega) h
      | false =>
          rw [exec_succ_of_not_test htest] at h ⊢
          exact h

theorem exec_of_first_failure {k fuel : ℕ} (hk : k < fuel)
    (htrue : ∀ j < k, (L.test (L.next^[j] s)).1 = true)
    (hfalse : (L.test (L.next^[k] s)).1 = false) :
    L.exec fuel s = some (L.test (L.next^[k] s)).2 := by
  induction k generalizing s fuel with
  | zero =>
      obtain ⟨more, rfl⟩ : ∃ more, fuel = more + 1 := ⟨fuel - 1, by omega⟩
      exact exec_succ_of_not_test hfalse
  | succ k ih =>
      obtain ⟨more, rfl⟩ : ∃ more, fuel = more + 1 := ⟨fuel - 1, by omega⟩
      have hfirst : (L.test s).1 = true := htrue 0 (by omega)
      rw [exec_succ_of_test hfirst]
      exact ih (by omega) (fun j hj => htrue (j + 1) (by omega)) hfalse

theorem exits_iff :
    L.Exits s t ↔ ∃ k, (∀ j < k, (L.test (L.next^[j] s)).1 = true) ∧
      (L.test (L.next^[k] s)).1 = false ∧ (L.test (L.next^[k] s)).2 = t := by
  constructor
  · rintro ⟨fuel, h⟩
    induction fuel generalizing s with
    | zero => simp [exec] at h
    | succ fuel ih =>
        cases htest : (L.test s).1 with
        | true =>
            rw [exec_succ_of_test htest] at h
            obtain ⟨k, htrue, hfalse, hout⟩ := ih h
            refine ⟨k + 1, ?_, hfalse, hout⟩
            intro j hj
            cases j with
            | zero => exact htest
            | succ j => exact htrue j (by omega)
        | false =>
            rw [exec_succ_of_not_test htest] at h
            exact ⟨0, by simp, htest, Option.some.inj h⟩
  · rintro ⟨k, htrue, hfalse, rfl⟩
    exact ⟨k + 1, exec_of_first_failure (Nat.lt_succ_self k) htrue hfalse⟩

/-- The exit is at the least index of a failing test. -/
theorem Exits.isLeast (h : L.Exits s t) :
    ∃ k, IsLeast {j | (L.test (L.next^[j] s)).1 = false} k ∧ (L.test (L.next^[k] s)).2 = t := by
  obtain ⟨k, htrue, hfalse, hout⟩ := exits_iff.mp h
  refine ⟨k, ⟨hfalse, ?_⟩, hout⟩
  intro j (hj : (L.test (L.next^[j] s)).1 = false)
  by_contra hlt
  rw [htrue j (by omega)] at hj
  cases hj

theorem Exits.first_pass (h : L.Exits s t) :
    ((L.test s).1 = false ∧ (L.test s).2 = t) ∨ ((L.test s).1 = true ∧ L.Exits (L.next s) t) := by
  obtain ⟨k, htrue, hfalse, hout⟩ := exits_iff.mp h
  cases k with
  | zero => exact Or.inl ⟨hfalse, hout⟩
  | succ k =>
      refine Or.inr ⟨htrue 0 (by omega), exits_iff.mpr ⟨k, ?_, hfalse, hout⟩⟩
      exact fun j hj => htrue (j + 1) (by omega)

/-- A loop is left exactly when some test along its passes fails. -/
theorem exists_exits_iff :
    (∃ t, L.Exits s t) ↔ ∃ k, (L.test (L.next^[k] s)).1 = false := by
  constructor
  · rintro ⟨t, h⟩
    obtain ⟨k, -, hfalse, -⟩ := exits_iff.mp h
    exact ⟨k, hfalse⟩
  · intro h
    refine ⟨(L.test (L.next^[Nat.find h] s)).2,
      exits_iff.mpr ⟨Nat.find h, ?_, Nat.find_spec h, rfl⟩⟩
    intro j hj
    simpa using Nat.find_min h hj

/-- A loop whose passes cannot change its test is left at once or never. -/
theorem exits_iff_of_frozen (hstate : ∀ u, (L.test u).2 = u)
    (hfrozen : ∀ u, (L.test (L.body u)).1 = (L.test u).1) :
    L.Exits s t ↔ (L.test s).1 = false ∧ t = s := by
  have htest : ∀ k, (L.test (L.next^[k] s)).1 = (L.test s).1 := by
    intro k
    induction k with
    | zero => rfl
    | succ k ih => rw [Function.iterate_succ_apply', next, hstate, hfrozen, ih]
  constructor
  · intro h
    rcases h.first_pass with ⟨hfalse, hout⟩ | ⟨htrue, -⟩
    · exact ⟨hfalse, by rw [← hout, hstate]⟩
    · obtain ⟨k, hk⟩ := exists_exits_iff.mp ⟨t, h⟩
      rw [htest, htrue] at hk
      cases hk
  · rintro ⟨hfalse, rfl⟩
    exact exits_iff.mpr ⟨0, by simp, hfalse, hstate t⟩

theorem iterate_of_idempotent (L : Loop σ) (hstate : ∀ u, (L.test u).2 = u)
    (hbody : ∀ u, L.body (L.body u) = L.body u) (s : σ) (k : ℕ) :
    L.next^[k + 1] s = L.body s := by
  induction k with
  | zero => rw [Function.iterate_one, next, hstate]
  | succ k ih => rw [Function.iterate_succ_apply', ih, next, hstate, hbody]

/-- A property kept by every pass holds where the last test is taken. -/
theorem Exits.invariant {I : σ → Prop} (h : L.Exits s t) (hinit : I s)
    (hstep : ∀ u, I u → (L.test u).1 = true → I (L.next u)) :
    ∃ u, I u ∧ (L.test u).1 = false ∧ (L.test u).2 = t := by
  obtain ⟨k, htrue, hfalse, hout⟩ := exits_iff.mp h
  refine ⟨L.next^[k] s, ?_, hfalse, hout⟩
  have hpass : ∀ j ≤ k, I (L.next^[j] s) := by
    intro j hj
    induction j with
    | zero => exact hinit
    | succ j ih =>
        rw [Function.iterate_succ_apply']
        exact hstep _ (ih (by omega)) (htrue j (by omega))
  exact hpass k le_rfl

theorem Exits.frame {β : Type*} {f : σ → β} (h : L.Exits s t)
    (htest : ∀ u, f (L.test u).2 = f u) (hbody : ∀ u, f (L.body u) = f u) : f t = f s := by
  obtain ⟨u, hu, -, rfl⟩ := h.invariant (I := fun u => f u = f s) rfl fun u hu _ => by
    rw [next, hbody, htest, hu]
  rw [htest, hu]

end Loop

end Sotabots.Machine
