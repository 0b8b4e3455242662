import Sotabots.Vision.Average
import Mathlib.Data.Finset.Card
import Mathlib.Order.Interval.Finset.Nat
/-!
# Which samples `Vision.average` still holds

The two arrays are meant as a ring buffer of the last 200 samples.  Sample `t`
belongs in slot `(t - 1) % 200`, and all of them get there except the last of each
round: the call that finds the index at 199 sets it back and stores nothing, so
slot 199 keeps its initial zero.  The buffer still holds every recent sample only
if the dropped one looks like that slot.
-/

namespace Sotabots.Vision

open Finset Java

/-! ## Counting through two assignments -/

theorem card_filter_of_injOn {α β : Type*} [DecidableEq β] {W : Finset α} {S : Finset β}
    {f : α → β} (hinj : Set.InjOn f W) (hmaps : ∀ t ∈ W, f t ∈ S) (hcard : S.card ≤ W.card)
    (p : β → Prop) [DecidablePred p] :
    (W.filter fun t => p (f t)).card = (S.filter p).card := by
  have himage : W.image f = S := by
    apply eq_of_subset_of_card_le
    · exact image_subset_iff.mpr hmaps
    · rwa [card_image_of_injOn hinj]
  rw [← himage, filter_image, card_image_of_injOn]
  exact hinj.mono (coe_subset.mpr (filter_subset _ W))

/-! ## Slots -/

/-- The numbers of the last 200 samples after `n` calls, or of all if there are
fewer. -/
def recent (n : ℕ) : Finset ℕ := Ioc (n - 200) n

def slotOf (t : ℕ) : ℕ := (t - 1) % 200

theorem slotOf_injOn (n : ℕ) : Set.InjOn slotOf (recent n) := by
  intro t ht t' ht' heq
  simp only [recent, coe_Ioc, Set.mem_Ioc] at ht ht'
  unfold slotOf at heq
  omega

theorem card_recent {n : ℕ} (hn : 200 ≤ n) : (recent n).card = 200 := by
  rw [recent, Nat.card_Ioc]
  omega

theorem latest_slotOf (z : ℕ → Rat) {n t : ℕ} (ht : t ∈ recent n) (hstored : ¬ 200 ∣ t) :
    latest z n (slotOf t) = z t := by
  rw [recent, mem_Ioc] at ht
  have hslot : slotOf t < 199 := by
    unfold slotOf
    omega
  have hage : n - (n - 1 - slotOf t) % 200 = t := by
    unfold slotOf
    omega
  have hbefore : slotOf t < n := by
    unfold slotOf
    omega
  rw [latest_eq z hslot, if_pos hbefore, hage]

theorem latest_last (z : ℕ → Rat) (n : ℕ) : latest z n 199 = 0 := by
  induction n with
  | zero => rfl
  | succ n ih => rw [latest, if_neg (by omega), ih]

theorem latest_slotOf_dropped (z : ℕ → Rat) {n t : ℕ} (ht : t ∈ recent n) (hdropped : 200 ∣ t) :
    latest z n (slotOf t) = 0 := by
  have hslot : slotOf t = 199 := by
    rw [recent, mem_Ioc] at ht
    unfold slotOf
    omega
  rw [hslot, latest_last]

def lastDropped (n : ℕ) : ℕ := 200 * (n / 200)

theorem dvd_iff_eq_lastDropped {n t : ℕ} (ht : t ∈ recent n) : 200 ∣ t ↔ t = lastDropped n := by
  rw [recent, mem_Ioc] at ht
  unfold lastDropped
  omega

theorem lastDropped_mem_recent {n : ℕ} (hn : 200 ≤ n) : lastDropped n ∈ recent n := by
  rw [recent, mem_Ioc]
  unfold lastDropped
  omega

/-! ## The buffer -/

/-- After `n` calls, none of which fails, every recent sample stands in a slot of
its own, with both coordinates at the same index. -/
def KeepsRecent (x y : ℕ → Rat) (n : ℕ) : Prop :=
  ∃ v, afterCalls x y n = .ok v ∧
    ∃ slot : ℕ → ℕ, Set.InjOn slot (recent n) ∧ ∀ t ∈ recent n,
      slot t < 200 ∧ load v.arrayX (slot t) = .ok (x t) ∧ load v.arrayY (slot t) = .ok (y t)

theorem keepsRecent_iff_latest (x y : ℕ → Rat) (n : ℕ) :
    KeepsRecent x y n ↔ ∃ slot : ℕ → ℕ, Set.InjOn slot (recent n) ∧ ∀ t ∈ recent n,
      slot t < 200 ∧ latest x n (slot t) = x t ∧ latest y n (slot t) = y t := by
  have hload : ∀ z w j, j < 200 →
      (load (tabulate 200 (latest z n)) j = .ok w ↔ latest z n j = w) := by
    intro z w j hj
    rw [load_tabulate _ hj, Except.ok.injEq]
  unfold KeepsRecent
  simp only [afterCalls_eq, Except.ok.injEq, exists_eq_left', staticsAfter]
  apply exists_congr
  intro slot
  apply and_congr_right
  intro _
  apply forall₂_congr
  intro t _
  apply and_congr_right
  intro hslot
  rw [hload _ _ _ hslot, hload _ _ _ hslot]

def SlotZero (x y : ℕ → Rat) (n j : ℕ) : Prop := latest x n j = 0 ∧ latest y n j = 0

instance (x y : ℕ → Rat) (n : ℕ) : DecidablePred (SlotZero x y n) :=
  fun _ => inferInstanceAs (Decidable (_ ∧ _))

theorem slotZero_slotOf_iff (x y : ℕ → Rat) {n t : ℕ} (ht : t ∈ recent n) :
    SlotZero x y n (slotOf t) ↔ t = lastDropped n ∨ (x t = 0 ∧ y t = 0) := by
  unfold SlotZero
  by_cases hdropped : 200 ∣ t
  · rw [latest_slotOf_dropped x ht hdropped, latest_slotOf_dropped y ht hdropped]
    exact iff_of_true ⟨rfl, rfl⟩ (Or.inl ((dvd_iff_eq_lastDropped ht).mp hdropped))
  · have hne : t ≠ lastDropped n := fun h => hdropped ((dvd_iff_eq_lastDropped ht).mpr h)
    rw [latest_slotOf x ht hdropped, latest_slotOf y ht hdropped]
    simp [hne]

/-- Counting the slots that hold zeros, once through the given assignment and once
through `slotOf`, leaves the dropped sample to be a zero. -/
theorem dropped_zero_of_keepsRecent {x y : ℕ → Rat} {n : ℕ} (hn : 200 ≤ n)
    (h : KeepsRecent x y n) : x (lastDropped n) = 0 ∧ y (lastDropped n) = 0 := by
  obtain ⟨slot, hinj, hslot⟩ := (keepsRecent_iff_latest x y n).mp h
  have hcard : (range 200).card ≤ (recent n).card := by
    rw [card_range, card_recent hn]
  have hzeros : ∀ t ∈ recent n, x t = 0 ∧ y t = 0 ↔ SlotZero x y n (slot t) := by
    intro t ht
    rw [SlotZero, (hslot t ht).2.1, (hslot t ht).2.2]
  have hcount : ((recent n).filter fun t => x t = 0 ∧ y t = 0).card =
      ((recent n).filter fun t => SlotZero x y n (slotOf t)).card :=
    calc ((recent n).filter fun t => x t = 0 ∧ y t = 0).card
        = ((recent n).filter fun t => SlotZero x y n (slot t)).card :=
          congrArg card (filter_congr hzeros)
      _ = ((range 200).filter (SlotZero x y n)).card :=
          card_filter_of_injOn hinj (fun t ht => mem_range.mpr (hslot t ht).1) hcard _
      _ = ((recent n).filter fun t => SlotZero x y n (slotOf t)).card :=
          (card_filter_of_injOn (slotOf_injOn n)
            (fun t _ => mem_range.mpr (Nat.mod_lt _ (by omega))) hcard _).symm
  by_contra hnonzero
  have hinsert : ((recent n).filter fun t => SlotZero x y n (slotOf t)) =
      insert (lastDropped n) ((recent n).filter fun t => x t = 0 ∧ y t = 0) := by
    ext t
    rw [mem_insert, mem_filter, mem_filter]
    by_cases ht : t ∈ recent n
    · simp [slotZero_slotOf_iff x y ht, ht]
    · have hne : t ≠ lastDropped n := fun h => ht (h ▸ lastDropped_mem_recent hn)
      simp [ht, hne]
  rw [hinsert, card_insert_of_notMem (by simp [hnonzero])] at hcount
  omega

/-- Every recent sample is kept exactly as long as no call has dropped one, and
after that when the last dropped sample is zero in both coordinates. -/
theorem keepsRecent_iff (x y : ℕ → Rat) (n : ℕ) :
    KeepsRecent x y n ↔ n < 200 ∨ (x (lastDropped n) = 0 ∧ y (lastDropped n) = 0) := by
  constructor
  · intro h
    by_cases hn : n < 200
    · exact Or.inl hn
    · exact Or.inr (dropped_zero_of_keepsRecent (by omega) h)
  · intro h
    rw [keepsRecent_iff_latest]
    refine ⟨slotOf, slotOf_injOn n, fun t ht => ⟨Nat.mod_lt _ (by omega), ?_⟩⟩
    by_cases hdropped : 200 ∣ t
    · have hlast := (dvd_iff_eq_lastDropped ht).mp hdropped
      have hfull : ¬ n < 200 := by
        rw [recent, mem_Ioc] at ht
        omega
      have hzero := h.resolve_left hfull
      rw [latest_slotOf_dropped x ht hdropped, latest_slotOf_dropped y ht hdropped, hlast]
      exact ⟨hzero.1.symm, hzero.2.symm⟩
    · exact ⟨latest_slotOf x ht hdropped, latest_slotOf y ht hdropped⟩

/-- Two hundred samples that are all 1: the last one is in no slot. -/
theorem not_keepsRecent_ones : ¬ KeepsRecent (fun _ => 1) (fun _ => 1) 200 := by
  intro h
  have hzero := (dropped_zero_of_keepsRecent (by omega) h).1
  exact absurd hzero (by norm_num)

end Sotabots.Vision
