import Mathlib.Logic.Equiv.Basic
import Mathlib.Data.Fintype.Card
import Mathlib.Order.Basic
/-!
# Heaps with a table of places

A heap kept in an array, the largest key first, and a table that says where in the
array the entry of each owner stands.  The lemmas are about one exchange at a
time: what a heap with one entry out of place is, how an exchange moves that place
up or down, and how the table follows.  Arrays are functions, of which the first
`size` values count.
-/

namespace Sotabots.Machine

def parent (i : ℕ) : ℕ := (i - 1) / 2

theorem parent_lt {i : ℕ} (h : 0 < i) : parent i < i := by
  unfold parent
  omega

def swapped {ι β : Type*} [DecidableEq ι] (f : ι → β) (a b : ι) : ι → β := f ∘ Equiv.swap a b

section Swapped

variable {ι β : Type*} [DecidableEq ι] (f : ι → β) {a b i : ι}

@[simp] theorem swapped_left (a b : ι) : swapped f a b a = f b := by
  simp [swapped]

@[simp] theorem swapped_right (a b : ι) : swapped f a b b = f a := by
  simp [swapped]

theorem swapped_of_ne (ha : i ≠ a) (hb : i ≠ b) : swapped f a b i = f i := by
  rw [swapped, Function.comp_apply, Equiv.swap_apply_of_ne_of_ne ha hb]

end Swapped

/-! ## The order of the keys -/

section Order

variable {α : Type*} [LinearOrder α] {key : ℕ → α} {size i : ℕ}

def IsHeap (key : ℕ → α) (size : ℕ) : Prop := ∀ i, 0 < i → i < size → key i ≤ key (parent i)

theorem IsHeap.le_root (h : IsHeap key size) : i < size → key i ≤ key 0 := by
  induction i using Nat.strongRecOn with
  | ind i ih =>
      intro hi
      rcases Nat.eq_zero_or_pos i with rfl | hpos
      · exact le_rfl
      · have hup := parent_lt hpos
        exact (h i hpos hi).trans (ih (parent i) hup (by omega))

def BelowParent (key : ℕ → α) (i : ℕ) : Prop := 0 < i → key i ≤ key (parent i)

def AboveChildren (key : ℕ → α) (size i : ℕ) : Prop :=
  ∀ j, 0 < j → j < size → parent j = i → key j ≤ key i

/-- A heap as far as the entry at `i` is not concerned. -/
structure HeapExcept (key : ℕ → α) (size i : ℕ) : Prop where
  edge : ∀ j, 0 < j → j < size → j ≠ i → parent j ≠ i → key j ≤ key (parent j)
  skip : 0 < i → ∀ j, 0 < j → j < size → parent j = i → key j ≤ key (parent i)

theorem HeapExcept.isHeap (h : HeapExcept key size i) (hparent : BelowParent key i)
    (hchildren : AboveChildren key size i) : IsHeap key size := by
  intro j hj hlt
  by_cases hji : j = i
  · subst hji
    exact hparent hj
  · by_cases hpi : parent j = i
    · rw [hpi]
      exact hchildren j hj hlt hpi
    · exact h.edge j hj hlt hji hpi

theorem IsHeap.update (h : IsHeap key size) (i : ℕ) (v : α) :
    HeapExcept (Function.update key i v) size i where
  edge j hj hlt hji hpi := by
    rw [Function.update_of_ne hji, Function.update_of_ne hpi]
    exact h j hj hlt
  skip hi j hj hlt hpi := by
    have hup := parent_lt hi
    have hdown := parent_lt hj
    rw [Function.update_of_ne (by omega), Function.update_of_ne (by omega)]
    calc key j ≤ key (parent j) := h j hj hlt
      _ = key i := by rw [hpi]
      _ ≤ key (parent i) := h i hi (by omega)

theorem IsHeap.mono (h : IsHeap key size) {size' : ℕ} (hle : size' ≤ size) : IsHeap key size' :=
  fun i hi hlt => h i hi (by omega)

theorem HeapExcept.mono (h : HeapExcept key size i) {size' : ℕ} (hle : size' ≤ size) :
    HeapExcept key size' i where
  edge j hj hlt := h.edge j hj (by omega)
  skip hi j hj hlt := h.skip hi j hj (by omega)

/-- An exchange with a smaller parent moves the place up.  Below it all is well
then, whatever was there before. -/
theorem HeapExcept.up (h : HeapExcept key size i) (hi : 0 < i) (hlt : i < size)
    (hless : key (parent i) < key i) :
    HeapExcept (swapped key i (parent i)) size (parent i) ∧
      AboveChildren (swapped key i (parent i)) size (parent i) := by
  have hup := parent_lt hi
  -- what stands at the old parent is not above the one over it
  have hparent : 0 < parent i → key (parent i) ≤ key (parent (parent i)) := by
    intro hpos
    have htop := parent_lt hpos
    exact h.edge _ hpos (by omega) (by omega) (by omega)
  have hsibling : ∀ j, 0 < j → j < size → j ≠ i → parent j = parent i → key j ≤ key (parent i) := by
    intro j hj hjlt hji hp
    have hedge := h.edge j hj hjlt hji (by omega)
    rwa [hp] at hedge
  refine ⟨⟨?_, ?_⟩, ?_⟩
  · intro j hj hjlt hjp hpp
    have hji : j ≠ i := fun heq => hpp (by rw [heq])
    rw [swapped_of_ne key hji hjp]
    by_cases hchild : parent j = i
    · rw [hchild, swapped_left]
      exact h.skip hi j hj hjlt hchild
    · rw [swapped_of_ne key hchild hpp]
      exact h.edge j hj hjlt hji hchild
  · intro hpos j hj hjlt hp
    have htop := parent_lt hpos
    rw [swapped_of_ne key (by omega : parent (parent i) ≠ i) (by omega)]
    by_cases hji : j = i
    · rw [hji, swapped_left]
      exact hparent hpos
    · have hdown := parent_lt hj
      rw [swapped_of_ne key hji (by omega)]
      exact (hsibling j hj hjlt hji hp).trans (hparent hpos)
  · intro j hj hjlt hp
    rw [swapped_right]
    by_cases hji : j = i
    · rw [hji, swapped_left]
      exact hless.le
    · have hdown := parent_lt hj
      rw [swapped_of_ne key hji (by omega)]
      exact (hsibling j hj hjlt hji hp).trans hless.le

/-- An exchange with the largest child moves the place down. -/
theorem HeapExcept.down (h : HeapExcept key size i) {c : ℕ} (hc : 0 < c) (hlt : c < size)
    (hchild : parent c = i) (hless : key i < key c)
    (hlargest : ∀ j, 0 < j → j < size → parent j = i → key j ≤ key c) :
    HeapExcept (swapped key c i) size c ∧ BelowParent (swapped key c i) c := by
  have hup := parent_lt hc
  refine ⟨⟨?_, ?_⟩, ?_⟩
  · intro j hj hjlt hjc hpc
    by_cases hji : j = i
    · subst hji
      have htop := parent_lt hj
      rw [swapped_right, swapped_of_ne key hpc (by omega)]
      exact h.skip hj c hc hlt hchild
    · rw [swapped_of_ne key hjc hji]
      by_cases hpi : parent j = i
      · rw [hpi, swapped_right]
        exact hlargest j hj hjlt hpi
      · rw [swapped_of_ne key hpc hpi]
        exact h.edge j hj hjlt hji hpi
  · intro _ j hj hjlt hpc
    have hdown := parent_lt hj
    rw [hchild, swapped_right, swapped_of_ne key (by omega) (by omega), ← hpc]
    exact h.edge j hj hjlt (by omega) (by omega)
  · intro _
    rw [hchild, swapped_right, swapped_left]
    exact hless.le

end Order

/-! ## The table of places -/

section Table

variable {κ : Type*} {place : κ → Option ℕ} {owner : ℕ → κ} {size : ℕ}

/-- `place` says for each owner which of the first `size` entries is its own. -/
def Indexes (place : κ → Option ℕ) (owner : ℕ → κ) (size : ℕ) : Prop :=
  ∀ c i, place c = some i ↔ i < size ∧ owner i = c

theorem Indexes.place_owner (h : Indexes place owner size) {i : ℕ} (hi : i < size) :
    place (owner i) = some i :=
  (h _ _).mpr ⟨hi, rfl⟩

theorem Indexes.eq_of_owner_eq (h : Indexes place owner size) {i j : ℕ} (hi : i < size)
    (hj : j < size) (heq : owner i = owner j) : i = j := by
  have hsome : some i = some j := by rw [← h.place_owner hi, heq, h.place_owner hj]
  exact Option.some.inj hsome

theorem Indexes.size_le [Fintype κ] (h : Indexes place owner size) : size ≤ Fintype.card κ := by
  have hinj : Function.Injective fun i : Fin size => owner i :=
    fun i j heq => Fin.ext (h.eq_of_owner_eq i.isLt j.isLt heq)
  simpa using Fintype.card_le_of_injective _ hinj

variable [DecidableEq κ]

theorem Indexes.swap (h : Indexes place owner size) {a b : ℕ} (ha : a < size) (hb : b < size) :
    Indexes (swapped place (owner a) (owner b)) (swapped owner a b) size := by
  -- the owner of an exchanged place is the exchanged owner
  have howner : ∀ i < size,
      owner (Equiv.swap a b i) = Equiv.swap (owner a) (owner b) (owner i) := by
    intro i hi
    by_cases hia : i = a
    · rw [hia, Equiv.swap_apply_left, Equiv.swap_apply_left]
    · by_cases hib : i = b
      · rw [hib, Equiv.swap_apply_right, Equiv.swap_apply_right]
      · rw [Equiv.swap_apply_of_ne_of_ne hia hib, Equiv.swap_apply_of_ne_of_ne]
        · exact fun heq => hia (h.eq_of_owner_eq hi ha heq)
        · exact fun heq => hib (h.eq_of_owner_eq hi hb heq)
  intro c i
  unfold swapped
  rw [Function.comp_apply, h, Function.comp_apply]
  apply and_congr_right
  intro hi
  rw [howner i hi]
  constructor
  · intro heq
    rw [heq, Equiv.swap_apply_self]
  · intro heq
    rw [← heq, Equiv.swap_apply_self]

theorem Indexes.push (h : Indexes place owner size) {c : κ} (hnew : place c = none) :
    Indexes (Function.update place c (some size)) (Function.update owner size c) (size + 1) := by
  intro d i
  by_cases hd : d = c
  · subst hd
    rw [Function.update_self, Option.some.injEq]
    by_cases hi : i = size
    · rw [hi, Function.update_self]
      simp
    · rw [Function.update_of_ne hi]
      have hother : i < size → owner i ≠ d := by
        intro hlt heq
        rw [(h d i).mpr ⟨hlt, heq⟩] at hnew
        cases hnew
      constructor
      · intro heq
        exact absurd heq.symm hi
      · intro hentry
        exact absurd hentry.2 (hother (by omega))
  · rw [Function.update_of_ne hd, h]
    by_cases hi : i = size
    · rw [hi, Function.update_self]
      constructor
      · intro hentry
        omega
      · intro hentry
        exact absurd hentry.2.symm hd
    · rw [Function.update_of_ne hi]
      apply and_congr_left
      intro _
      omega

theorem Indexes.remove (h : Indexes place owner size) {c : κ} {i : ℕ} (hc : place c = some i) :
    Indexes (Function.update (Function.update place (owner (size - 1)) (some i)) c none)
      (Function.update owner i (owner (size - 1))) (size - 1) := by
  obtain ⟨hi, howner⟩ := (h c i).mp hc
  have hlast : size - 1 < size := by omega
  have hinj : ∀ j < size, ∀ k < size, owner j = owner k → j = k :=
    fun j hj k hk heq => h.eq_of_owner_eq hj hk heq
  intro d j
  by_cases hd : d = c
  · -- the removed owner has no place, and none of the entries left is its own
    rw [hd, Function.update_self]
    constructor
    · intro hnone
      cases hnone
    · intro hentry
      by_cases hji : j = i
      · rw [hji, Function.update_self, ← howner] at hentry
        have hsame := hinj _ hlast _ hi hentry.2
        omega
      · rw [Function.update_of_ne hji, ← howner] at hentry
        exact absurd (hinj j (by omega) i hi hentry.2) hji
  · rw [Function.update_of_ne hd]
    by_cases hdlast : d = owner (size - 1)
    · subst hdlast
      rw [Function.update_self, Option.some.injEq]
      have hne : i ≠ size - 1 := fun heq => hd (by rw [← howner, heq])
      by_cases hji : j = i
      · rw [hji, Function.update_self]
        exact iff_of_true rfl ⟨by omega, rfl⟩
      · rw [Function.update_of_ne hji]
        constructor
        · intro heq
          exact absurd heq.symm hji
        · intro hentry
          have hsame := hinj j (by omega) _ hlast hentry.2
          omega
    · rw [Function.update_of_ne hdlast, h]
      by_cases hji : j = i
      · rw [hji, Function.update_self]
        constructor
        · intro hentry
          exact absurd (hentry.2.symm.trans howner) hd
        · intro hentry
          exact absurd hentry.2.symm hdlast
      · rw [Function.update_of_ne hji]
        constructor
        · intro hentry
          refine ⟨?_, hentry.2⟩
          have hne : j ≠ size - 1 := fun heq => hdlast (by rw [← hentry.2, heq])
          omega
        · intro hentry
          exact ⟨by omega, hentry.2⟩

end Table

end Sotabots.Machine
