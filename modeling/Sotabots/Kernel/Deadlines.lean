import Sotabots.Machine.Heap
import Sotabots.Machine.Trace
import Mathlib.Data.Finset.Lattice.Basic
import Mathlib.Data.Finset.Insert
import Mathlib.Data.Fintype.Powerset
/-!
# The deadlines of the processors

`cpudeadline.c` keeps, for each processor that runs deadline tasks, the earliest
of their deadlines, in a heap with the latest of them at the root.  A scheduler
with a task to place asks for a free processor, or else for the one at the root if
the task's deadline comes before.

What it is for is a partial map from processors to deadlines.  `Represents` says
when a heap stands for a map, and every call of `cpudl_set` is shown to be an
update of that map.  Deadlines are compared by the sign of their difference, which
is their order as long as they stay below half the range of a word.
-/

namespace Sotabots.Kernel

open Machine

/-! ## The program -/

structure ArrayItem (n : ℕ) where
  dl : UInt64
  cpu : Fin n

/-- `struct cpudl` for `n` processors.  An invalid index is none. -/
structure Cpudl (n : ℕ) where
  size : ℕ
  cpuToIdx : Fin n → Option ℕ
  elements : ℕ → ArrayItem n
  freeCpus : Finset (Fin n)

def leftChild (i : ℕ) : ℕ := 2 * i + 1

def rightChild (i : ℕ) : ℕ := 2 * i + 2

/-- `(s64)(a - b) < 0` -/
def dlTimeBefore (a b : UInt64) : Bool := (a - b).toInt64 < 0

variable {n : ℕ}

def cpudlExchange (cp : Cpudl n) (a b : ℕ) : Cpudl n :=
  { cp with
    elements := swapped cp.elements a b
    cpuToIdx := swapped cp.cpuToIdx (cp.elements a).cpu (cp.elements b).cpu }

def Cpudl.before (cp : Cpudl n) (i j : ℕ) : Bool :=
  dlTimeBefore (cp.elements i).dl (cp.elements j).dl

def Cpudl.largest (cp : Cpudl n) (idx : ℕ) : ℕ :=
  let l := leftChild idx
  let r := rightChild idx
  let largest := if l < cp.size ∧ cp.before idx l = true then l else idx
  if r < cp.size ∧ cp.before largest r = true then r else largest

theorem largest_cases (cp : Cpudl n) (idx : ℕ) :
    cp.largest idx = idx ∨ cp.largest idx < cp.size ∧
      (cp.largest idx = leftChild idx ∨ cp.largest idx = rightChild idx) := by
  simp only [Cpudl.largest]
  split_ifs <;> simp_all

def cpudlHeapify (cp : Cpudl n) (idx : ℕ) : Cpudl n :=
  if cp.largest idx = idx then cp
  else cpudlHeapify (cpudlExchange cp (cp.largest idx) idx) (cp.largest idx)
termination_by cp.size - idx
decreasing_by
  have hcases := largest_cases cp idx
  simp only [cpudlExchange, leftChild, rightChild] at *
  omega

/-- The loop that `cpudl_change_key` and `cpudl_set` share; the index is where it
stops. -/
def raise (cp : Cpudl n) (idx : ℕ) : Cpudl n × ℕ :=
  if 0 < idx ∧ cp.before (parent idx) idx = true then
    raise (cpudlExchange cp idx (parent idx)) (parent idx)
  else (cp, idx)
termination_by idx
decreasing_by
  unfold parent
  omega

def Cpudl.setDl (cp : Cpudl n) (idx : ℕ) (dl : UInt64) : Cpudl n :=
  { cp with elements := Function.update cp.elements idx { cp.elements idx with dl := dl } }

def cpudlChangeKey (cp : Cpudl n) (idx : ℕ) (newDl : UInt64) : Cpudl n :=
  if dlTimeBefore newDl (cp.elements idx).dl then cpudlHeapify (cp.setDl idx newDl) idx
  else (raise (cp.setDl idx newDl) idx).1

def cpudlMaximum (cp : Cpudl n) : Fin n := (cp.elements 0).cpu

def Cpudl.moveLast (cp : Cpudl n) (cpu : Fin n) (oldIdx : ℕ) : Cpudl n :=
  let last := cp.elements (cp.size - 1)
  { cp with
    elements := Function.update cp.elements oldIdx last
    size := cp.size - 1
    cpuToIdx := Function.update (Function.update cp.cpuToIdx last.cpu (some oldIdx)) cpu none }

def Cpudl.append (cp : Cpudl n) (cpu : Fin n) : Cpudl n :=
  { cp with
    size := cp.size + 1
    elements := Function.update cp.elements cp.size ⟨0, cpu⟩
    cpuToIdx := Function.update cp.cpuToIdx cpu (some cp.size) }

def Cpudl.withFree (cp : Cpudl n) (free : Finset (Fin n)) : Cpudl n := { cp with freeCpus := free }

def cpudlSet (cp : Cpudl n) (cpu : Fin n) (dl : UInt64) (isValid : Bool) : Cpudl n :=
  match isValid, cp.cpuToIdx cpu with
  | false, none => cp
  | false, some oldIdx =>
      let moved := raise (cp.moveLast cpu oldIdx) oldIdx
      cpudlHeapify (moved.1.withFree (insert cpu moved.1.freeCpus)) moved.2
  | true, none =>
      let changed := cpudlChangeKey (cp.append cpu) ((cp.append cpu).size - 1) dl
      changed.withFree (changed.freeCpus.erase cpu)
  | true, some oldIdx => cpudlChangeKey cp oldIdx dl

/-- `cpumask_any`, which may pick any processor of the mask. -/
structure CpumaskAny (n : ℕ) where
  pick : Finset (Fin n) → Fin n
  pick_mem : ∀ mask, mask.Nonempty → pick mask ∈ mask

structure Task (n : ℕ) where
  deadline : UInt64
  cpusAllowed : Finset (Fin n)

def Cpudl.findMaximum (cp : Cpudl n) (p : Task n) (laterMask : Option (Finset (Fin n))) :
    Option (Fin n) × Option (Finset (Fin n)) :=
  if cpudlMaximum cp ∈ p.cpusAllowed ∧ dlTimeBefore p.deadline (cp.elements 0).dl = true then
    (some (cpudlMaximum cp), laterMask.map fun mask => insert (cpudlMaximum cp) mask)
  else (none, laterMask)

/-- The best processor, and what is left in `later_mask` if the caller has one. -/
def cpudlFind (any : CpumaskAny n) (active : Finset (Fin n)) (cp : Cpudl n) (p : Task n)
    (laterMask : Option (Finset (Fin n))) : Option (Fin n) × Option (Finset (Fin n)) :=
  match laterMask with
  | none => cp.findMaximum p none
  | some _ =>
      let allowed := cp.freeCpus ∩ p.cpusAllowed
      if allowed.Nonempty then
        if (allowed ∩ active).Nonempty then
          (some (any.pick (allowed ∩ active)), some (allowed ∩ active))
        else cp.findMaximum p (some (allowed ∩ active))
      else cp.findMaximum p (some allowed)

/-- The structure is cleared first, so every entry names processor 0. -/
def cpudlInit (hn : 0 < n) : Cpudl n where
  size := 0
  cpuToIdx _ := none
  elements _ := ⟨0, ⟨0, hn⟩⟩
  freeCpus := Finset.univ

/-! ## Keys and owners -/

/-- Whoever compares by the sign of the difference compares by value, within half
the range. -/
theorem dlTimeBefore_iff {a b : UInt64} (ha : a.toNat < 2 ^ 63) (hb : b.toNat < 2 ^ 63) :
    dlTimeBefore a b = true ↔ a.toNat < b.toNat := by
  have hsub : (a - b).toNat = (2 ^ 64 - b.toNat + a.toNat) % 2 ^ 64 := UInt64.toNat_sub a b
  have hint : ((a - b).toInt64 < 0) ↔ (a - b).toBitVec.toInt < 0 := Int64.lt_iff_toInt_lt
  have hnat : (a - b).toBitVec.toNat = (a - b).toNat := rfl
  rw [dlTimeBefore, decide_eq_true_iff, hint, BitVec.toInt_eq_toNat_cond, hnat, hsub]
  split_ifs <;> omega

namespace Cpudl

def key (cp : Cpudl n) (i : ℕ) : ℕ := (cp.elements i).dl.toNat

def owner (cp : Cpudl n) (i : ℕ) : Fin n := (cp.elements i).cpu

theorem key_update (cp : Cpudl n) (idx : ℕ) (x : ArrayItem n) :
    (fun i => (Function.update cp.elements idx x i).dl.toNat) =
      Function.update cp.key idx x.dl.toNat :=
  Function.comp_update (fun y : ArrayItem n => y.dl.toNat) cp.elements idx x

theorem owner_update (cp : Cpudl n) (idx : ℕ) (x : ArrayItem n) :
    (fun i => (Function.update cp.elements idx x i).cpu) = Function.update cp.owner idx x.cpu :=
  Function.comp_update ArrayItem.cpu cp.elements idx x

theorem key_setDl (cp : Cpudl n) (idx : ℕ) (dl : UInt64) :
    (cp.setDl idx dl).key = Function.update cp.key idx dl.toNat :=
  cp.key_update idx _

theorem owner_setDl (cp : Cpudl n) (idx : ℕ) (dl : UInt64) :
    (cp.setDl idx dl).owner = cp.owner :=
  (cp.owner_update idx _).trans (Function.update_eq_self idx cp.owner)

theorem key_append (cp : Cpudl n) (cpu : Fin n) :
    (cp.append cpu).key = Function.update cp.key cp.size 0 :=
  cp.key_update cp.size ⟨0, cpu⟩

theorem owner_append (cp : Cpudl n) (cpu : Fin n) :
    (cp.append cpu).owner = Function.update cp.owner cp.size cpu :=
  cp.owner_update cp.size ⟨0, cpu⟩

theorem key_moveLast (cp : Cpudl n) (cpu : Fin n) (idx : ℕ) :
    (cp.moveLast cpu idx).key = Function.update cp.key idx (cp.key (cp.size - 1)) :=
  cp.key_update idx _

theorem owner_moveLast (cp : Cpudl n) (cpu : Fin n) (idx : ℕ) :
    (cp.moveLast cpu idx).owner = Function.update cp.owner idx (cp.owner (cp.size - 1)) :=
  cp.owner_update idx _

/-- The entries and the table of places are those of the map `d`. -/
structure Holds (cp : Cpudl n) (d : Fin n → Option UInt64) : Prop where
  index : Indexes cp.cpuToIdx cp.owner cp.size
  entry : ∀ i < cp.size, d (cp.elements i).cpu = some (cp.elements i).dl
  absent : ∀ c, cp.cpuToIdx c = none → d c = none
  small : ∀ c v, d c = some v → v.toNat < 2 ^ 63

variable {cp : Cpudl n} {d : Fin n → Option UInt64}

theorem Holds.key_lt (h : cp.Holds d) {i : ℕ} (hi : i < cp.size) : cp.key i < 2 ^ 63 :=
  h.small _ _ (h.entry i hi)

theorem Holds.before_iff (h : cp.Holds d) {i j : ℕ} (hi : i < cp.size) (hj : j < cp.size) :
    cp.before i j = true ↔ cp.key i < cp.key j :=
  dlTimeBefore_iff (h.key_lt hi) (h.key_lt hj)

theorem Holds.exchange (h : cp.Holds d) {a b : ℕ} (ha : a < cp.size) (hb : b < cp.size) :
    (cpudlExchange cp a b).Holds d where
  index := h.index.swap ha hb
  entry i hi := by
    have hswap : Equiv.swap a b i < cp.size := by
      rw [Equiv.swap_apply_def]
      split_ifs
      · exact hb
      · exact ha
      · exact hi
    exact h.entry _ hswap
  absent c hc := by
    change swapped cp.cpuToIdx (cp.owner a) (cp.owner b) c = none at hc
    by_cases hca : c = cp.owner a
    · rw [hca, swapped_left, h.index.place_owner hb] at hc
      cases hc
    · by_cases hcb : c = cp.owner b
      · rw [hcb, swapped_right, h.index.place_owner ha] at hc
        cases hc
      · rw [swapped_of_ne _ hca hcb] at hc
        exact h.absent c hc
  small := h.small

/-- The heap of a map but for the entry at `idx`. -/
structure OutOfPlace (cp : Cpudl n) (d : Fin n → Option UInt64) (idx : ℕ) : Prop extends
    cp.Holds d where
  lt : idx < cp.size
  except : HeapExcept cp.key cp.size idx

structure Ordered (cp : Cpudl n) (d : Fin n → Option UInt64) : Prop extends cp.Holds d where
  heap : IsHeap cp.key cp.size

end Cpudl

/-! ## The loops -/

section Loops

open Cpudl

variable {cp : Cpudl n} {d : Fin n → Option UInt64} {idx : ℕ}

theorem eq_child {j : ℕ} (hj : 0 < j) (hparent : parent j = idx) :
    j = leftChild idx ∨ j = rightChild idx := by
  unfold parent at hparent
  unfold leftChild rightChild
  omega

theorem parent_leftChild (idx : ℕ) : parent (leftChild idx) = idx := by
  unfold parent leftChild
  omega

theorem parent_rightChild (idx : ℕ) : parent (rightChild idx) = idx := by
  unfold parent rightChild
  omega

theorem Cpudl.Holds.le_largest (h : cp.Holds d) (hidx : idx < cp.size) :
    cp.key idx ≤ cp.key (cp.largest idx) ∧
      ∀ j, 0 < j → j < cp.size → parent j = idx → cp.key j ≤ cp.key (cp.largest idx) := by
  -- the first choice, between the entry and its left child
  obtain ⟨first, hfirst, hlt, hself, hleft⟩ : ∃ first,
      first = (if leftChild idx < cp.size ∧ cp.before idx (leftChild idx) = true
        then leftChild idx else idx) ∧ first < cp.size ∧ cp.key idx ≤ cp.key first ∧
      (leftChild idx < cp.size → cp.key (leftChild idx) ≤ cp.key first) := by
    refine ⟨_, rfl, ?_⟩
    split_ifs with hcond
    · have hless := (h.before_iff hidx hcond.1).mp hcond.2
      exact ⟨hcond.1, hless.le, fun _ => le_rfl⟩
    · refine ⟨hidx, le_rfl, fun hl => ?_⟩
      exact not_lt.mp fun hless => hcond ⟨hl, (h.before_iff hidx hl).mpr hless⟩
  have hlargest : cp.largest idx =
      if rightChild idx < cp.size ∧ cp.before first (rightChild idx) = true
        then rightChild idx else first := by
    rw [hfirst]
    rfl
  rw [hlargest]
  split_ifs with hcond
  · have hless := (h.before_iff hlt hcond.1).mp hcond.2
    refine ⟨hself.trans hless.le, ?_⟩
    intro j hj hjlt hparent
    rcases eq_child hj hparent with rfl | rfl
    · exact (hleft hjlt).trans hless.le
    · exact le_rfl
  · refine ⟨hself, ?_⟩
    intro j hj hjlt hparent
    rcases eq_child hj hparent with rfl | rfl
    · exact hleft hjlt
    · exact not_lt.mp fun hless => hcond ⟨hjlt, (h.before_iff hlt hjlt).mpr hless⟩

/-- A pass that does not end the loop has found a child with a later deadline. -/
theorem Cpudl.Holds.lt_largest (h : cp.Holds d) (hidx : idx < cp.size)
    (hne : cp.largest idx ≠ idx) :
    cp.largest idx < cp.size ∧ 0 < cp.largest idx ∧ parent (cp.largest idx) = idx ∧
      cp.key idx < cp.key (cp.largest idx) := by
  have hless : cp.key idx < cp.key (cp.largest idx) := by
    simp only [Cpudl.largest] at hne ⊢
    split_ifs at hne ⊢ with hl hr hr
    · have hfirst := (h.before_iff hidx hl.1).mp hl.2
      exact hfirst.trans ((h.before_iff hl.1 hr.1).mp hr.2)
    · exact (h.before_iff hidx hl.1).mp hl.2
    · exact (h.before_iff hidx hr.1).mp hr.2
    · exact absurd rfl hne
  rcases largest_cases cp idx with heq | ⟨hlt, heq | heq⟩
  · exact absurd heq hne
  · rw [heq] at hlt hless ⊢
    exact ⟨hlt, by unfold leftChild; omega, parent_leftChild idx, hless⟩
  · rw [heq] at hlt hless ⊢
    exact ⟨hlt, by unfold rightChild; omega, parent_rightChild idx, hless⟩

/-- Pushing down an entry that is not above its parent leaves a heap. -/
theorem cpudlHeapify_spec (h : cp.OutOfPlace d idx) (hparent : BelowParent cp.key idx) :
    (cpudlHeapify cp idx).Ordered d ∧ (cpudlHeapify cp idx).freeCpus = cp.freeCpus := by
  fun_induction cpudlHeapify cp idx with
  | case1 cp idx hstop =>
      have hchildren := (h.toHolds.le_largest h.lt).2
      rw [hstop] at hchildren
      exact ⟨⟨h.toHolds, h.except.isHeap hparent hchildren⟩, rfl⟩
  | case2 cp idx hgo ih =>
      obtain ⟨hlt, hpos, hchild, hless⟩ := h.toHolds.lt_largest h.lt hgo
      obtain ⟨hexcept, hbelow⟩ := h.except.down hpos hlt hchild hless
        (h.toHolds.le_largest h.lt).2
      exact ih ⟨h.toHolds.exchange hlt h.lt, hlt, hexcept⟩ hbelow

/-- The raised entry stops below its parent, and above its children if it was above
them at the start. -/
theorem raise_spec (h : cp.OutOfPlace d idx) :
    (raise cp idx).1.OutOfPlace d (raise cp idx).2 ∧
      BelowParent (raise cp idx).1.key (raise cp idx).2 ∧
      (AboveChildren cp.key cp.size idx →
        AboveChildren (raise cp idx).1.key (raise cp idx).1.size (raise cp idx).2) ∧
      (raise cp idx).1.freeCpus = cp.freeCpus := by
  fun_induction raise cp idx with
  | case1 cp idx hgo ih =>
      have hup := parent_lt hgo.1
      have hlt : parent idx < cp.size := hup.trans h.lt
      obtain ⟨hexcept, habove⟩ := h.except.up hgo.1 h.lt
        ((h.toHolds.before_iff hlt h.lt).mp hgo.2)
      obtain ⟨hout, hparent, hchildren, hfree⟩ :=
        ih ⟨h.toHolds.exchange h.lt hlt, hlt, hexcept⟩
      exact ⟨hout, hparent, fun _ => hchildren habove, hfree⟩
  | case2 cp idx hstop =>
      refine ⟨h, ?_, id, rfl⟩
      intro hpos
      have hup := parent_lt hpos
      exact not_lt.mp fun hless =>
        hstop ⟨hpos, (h.toHolds.before_iff (hup.trans h.lt) h.lt).mpr hless⟩

end Loops

/-! ## The calls -/

section Calls

open Cpudl

variable {cp : Cpudl n} {d : Fin n → Option UInt64} {idx : ℕ} {dl : UInt64}

theorem Cpudl.Holds.setDl (h : cp.Holds d) (hidx : idx < cp.size) (hdl : dl.toNat < 2 ^ 63) :
    (cp.setDl idx dl).Holds (Function.update d (cp.owner idx) (some dl)) where
  index := by
    rw [owner_setDl]
    exact h.index
  entry i hi := by
    by_cases heq : i = idx
    · simp [Cpudl.setDl, heq, Cpudl.owner]
    · have hne : (cp.elements i).cpu ≠ cp.owner idx :=
        fun hsame => heq (h.index.eq_of_owner_eq hi hidx hsame)
      simp only [Cpudl.setDl, Function.update_of_ne heq, Function.update_of_ne hne]
      exact h.entry i hi
  absent c hc := by
    have hne : c ≠ cp.owner idx := by
      intro hsame
      change cp.cpuToIdx c = none at hc
      rw [hsame, h.index.place_owner hidx] at hc
      cases hc
    rw [Function.update_of_ne hne]
    exact h.absent c hc
  small c v hv := by
    by_cases hc : c = cp.owner idx
    · rw [hc, Function.update_self] at hv
      rwa [← Option.some.inj hv]
    · rw [Function.update_of_ne hc] at hv
      exact h.small c v hv

theorem cpudlChangeKey_spec (h : cp.Ordered d) (hidx : idx < cp.size) (hdl : dl.toNat < 2 ^ 63) :
    (cpudlChangeKey cp idx dl).Ordered (Function.update d (cp.owner idx) (some dl)) ∧
      (cpudlChangeKey cp idx dl).freeCpus = cp.freeCpus := by
  have hout : (cp.setDl idx dl).OutOfPlace (Function.update d (cp.owner idx) (some dl)) idx :=
    ⟨h.toHolds.setDl hidx hdl, hidx, by
      rw [key_setDl]
      exact h.heap.update idx dl.toNat⟩
  have hless := dlTimeBefore_iff hdl (h.toHolds.key_lt hidx)
  unfold cpudlChangeKey
  by_cases hearlier : dlTimeBefore dl (cp.elements idx).dl = true
  · rw [if_pos hearlier]
    apply cpudlHeapify_spec hout
    intro hpos
    have hup := parent_lt hpos
    rw [key_setDl, Function.update_self, Function.update_of_ne (by omega)]
    exact (hless.mp hearlier).le.trans (h.heap idx hpos hidx)
  · rw [if_neg hearlier]
    obtain ⟨hraised, hparent, hchildren, hfree⟩ := raise_spec hout
    refine ⟨⟨hraised.toHolds, hraised.except.isHeap hparent (hchildren ?_)⟩, hfree⟩
    intro j hj hjlt hchild
    have hdown := parent_lt hj
    rw [key_setDl, Function.update_self, Function.update_of_ne (by omega)]
    have hedge := h.heap j hj hjlt
    rw [hchild] at hedge
    exact hedge.trans (not_lt.mp fun hlt => hearlier (hless.mpr hlt))

theorem Cpudl.Ordered.append (h : cp.Ordered d) {cpu : Fin n} (hnew : cp.cpuToIdx cpu = none) :
    (cp.append cpu).Ordered (Function.update d cpu (some 0)) := by
  refine ⟨⟨?_, ?_, ?_, ?_⟩, ?_⟩
  · rw [owner_append]
    exact h.index.push hnew
  · intro i hi
    by_cases heq : i = cp.size
    · simp [Cpudl.append, heq]
    · have hlt : i < cp.size := by
        change i < cp.size + 1 at hi
        omega
      have hne : (cp.elements i).cpu ≠ cpu := by
        intro hsame
        have hplace := h.index.place_owner hlt
        rw [Cpudl.owner, hsame, hnew] at hplace
        cases hplace
      simp only [Cpudl.append, Function.update_of_ne heq, Function.update_of_ne hne]
      exact h.entry i hlt
  · intro c hc
    have hne : c ≠ cpu := by
      intro hsame
      simp [Cpudl.append, hsame] at hc
    simp only [Cpudl.append, Function.update_of_ne hne] at hc ⊢
    exact h.absent c hc
  · intro c v hv
    by_cases hc : c = cpu
    · rw [hc, Function.update_self] at hv
      rw [← Option.some.inj hv]
      decide
    · rw [Function.update_of_ne hc] at hv
      exact h.small c v hv
  · intro i hi hlt
    change i < cp.size + 1 at hlt
    have hup := parent_lt hi
    rw [key_append]
    by_cases heq : i = cp.size
    · rw [heq, Function.update_self]
      exact Nat.zero_le _
    · rw [Function.update_of_ne heq, Function.update_of_ne (by omega)]
      exact h.heap i hi (by omega)

theorem Cpudl.Holds.moveLast (h : cp.Holds d) {cpu : Fin n} (hold : cp.cpuToIdx cpu = some idx) :
    (cp.moveLast cpu idx).Holds (Function.update d cpu none) where
  index := by
    rw [owner_moveLast]
    exact h.index.remove hold
  entry i hi := by
    obtain ⟨hidx, howner⟩ := (h.index cpu idx).mp hold
    change i < cp.size - 1 at hi
    -- whichever entry stands at `i` now is not the one of `cpu`
    have hkept : ∀ k < cp.size, k ≠ idx →
        Function.update d cpu none (cp.elements k).cpu = some (cp.elements k).dl := by
      intro k hk hne
      have hother : (cp.elements k).cpu ≠ cpu := by
        intro hsame
        exact hne (h.index.eq_of_owner_eq hk hidx (hsame.trans howner.symm))
      rw [Function.update_of_ne hother]
      exact h.entry k hk
    by_cases heq : i = idx
    · simp only [Cpudl.moveLast, heq, Function.update_self]
      exact hkept _ (by omega) (by omega)
    · simp only [Cpudl.moveLast, Function.update_of_ne heq]
      exact hkept i (by omega) heq
  absent c hc := by
    by_cases hcpu : c = cpu
    · rw [hcpu, Function.update_self]
    · simp only [Cpudl.moveLast, Function.update_of_ne hcpu] at hc ⊢
      by_cases hlast : c = (cp.elements (cp.size - 1)).cpu
      · rw [hlast, Function.update_self] at hc
        cases hc
      · rw [Function.update_of_ne hlast] at hc
        exact h.absent c hc
  small c v hv := by
    by_cases hc : c = cpu
    · rw [hc, Function.update_self] at hv
      cases hv
    · rw [Function.update_of_ne hc] at hv
      exact h.small c v hv

/-- Removing the last entry moves nothing: the loops find it past the end and below
its old parent. -/
theorem remove_last (h : cp.Ordered d) {cpu : Fin n} (hold : cp.cpuToIdx cpu = some idx)
    (hlast : idx = cp.size - 1) : raise (cp.moveLast cpu idx) idx = (cp.moveLast cpu idx, idx) := by
  obtain ⟨hidx, -⟩ := (h.index cpu idx).mp hold
  have hsame : ∀ i, (cp.moveLast cpu idx).elements i = cp.elements i := by
    intro i
    by_cases hi : i = idx
    · simp [Cpudl.moveLast, hi, hlast]
    · simp [Cpudl.moveLast, hi]
  rw [raise, if_neg]
  rintro ⟨hpos, hbefore⟩
  have hup := parent_lt hpos
  rw [Cpudl.before, hsame, hsame] at hbefore
  have hless := (h.toHolds.before_iff (hup.trans hidx) hidx).mp hbefore
  have hedge := h.heap idx hpos hidx
  omega

theorem cpudlHeapify_of_le (hidx : cp.size ≤ idx) : cpudlHeapify cp idx = cp := by
  have hstop : cp.largest idx = idx := by
    rcases largest_cases cp idx with heq | ⟨hlt, heq | heq⟩
    · exact heq
    · rw [heq] at hlt
      unfold leftChild at hlt
      omega
    · rw [heq] at hlt
      unfold rightChild at hlt
      omega
  rw [cpudlHeapify, if_pos hstop]

theorem Cpudl.OutOfPlace.withFree (h : cp.OutOfPlace d idx) (free : Finset (Fin n)) :
    (cp.withFree free).OutOfPlace d idx :=
  ⟨⟨h.index, h.entry, h.absent, h.small⟩, h.lt, h.except⟩

theorem Cpudl.Ordered.withFree (h : cp.Ordered d) (free : Finset (Fin n)) :
    (cp.withFree free).Ordered d :=
  ⟨⟨h.index, h.entry, h.absent, h.small⟩, h.heap⟩

theorem remove_spec (h : cp.Ordered d) {cpu : Fin n} (hold : cp.cpuToIdx cpu = some idx)
    (free : Finset (Fin n)) :
    (cpudlHeapify ((raise (cp.moveLast cpu idx) idx).1.withFree free)
        (raise (cp.moveLast cpu idx) idx).2).Ordered (Function.update d cpu none) ∧
      (cpudlHeapify ((raise (cp.moveLast cpu idx) idx).1.withFree free)
        (raise (cp.moveLast cpu idx) idx).2).freeCpus = free ∧
      (raise (cp.moveLast cpu idx) idx).1.freeCpus = cp.freeCpus := by
  obtain ⟨hidx, -⟩ := (h.index cpu idx).mp hold
  have hholds := h.toHolds.moveLast hold
  by_cases hlast : idx = cp.size - 1
  · have hheap : IsHeap (cp.moveLast cpu idx).key (cp.moveLast cpu idx).size := by
      rw [key_moveLast, hlast, Function.update_eq_self]
      exact h.heap.mono (Nat.sub_le _ _)
    have hpast : ((cp.moveLast cpu idx).withFree free).size ≤ idx := by
      change cp.size - 1 ≤ idx
      omega
    rw [remove_last h hold hlast, cpudlHeapify_of_le hpast]
    exact ⟨Cpudl.Ordered.withFree ⟨hholds, hheap⟩ free, rfl, rfl⟩
  · have hout : (cp.moveLast cpu idx).OutOfPlace (Function.update d cpu none) idx := by
      refine ⟨hholds, ?_, ?_⟩
      · change idx < cp.size - 1
        omega
      · rw [key_moveLast]
        exact (h.heap.update idx _).mono (Nat.sub_le _ _)
    obtain ⟨hraised, hparent, -, hfree⟩ := raise_spec hout
    obtain ⟨hordered, hkept⟩ := cpudlHeapify_spec (hraised.withFree free) hparent
    exact ⟨hordered, hkept, hfree⟩

/-- The heap stands for the map, and the free processors are those without a
deadline. -/
structure Cpudl.Represents (cp : Cpudl n) (d : Fin n → Option UInt64) : Prop extends
    cp.Ordered d where
  free : ∀ c, c ∈ cp.freeCpus ↔ d c = none

theorem Cpudl.Represents.mem_insert_free (h : cp.Represents d) (cpu c : Fin n) :
    c ∈ insert cpu cp.freeCpus ↔ Function.update d cpu none c = none := by
  rw [Finset.mem_insert, h.free]
  by_cases hc : c = cpu
  · simp [hc]
  · simp [hc]

theorem Cpudl.Represents.mem_erase_free (h : cp.Represents d) (cpu c : Fin n) :
    c ∈ cp.freeCpus.erase cpu ↔ Function.update d cpu (some dl) c = none := by
  rw [Finset.mem_erase, h.free]
  by_cases hc : c = cpu
  · simp [hc]
  · simp [hc]

theorem Cpudl.Represents.not_free (h : cp.Represents d) {cpu : Fin n}
    (hold : cp.cpuToIdx cpu = some idx) : cpu ∉ cp.freeCpus := by
  obtain ⟨hidx, howner⟩ := (h.index cpu idx).mp hold
  have hentry := h.entry idx hidx
  change d (cp.owner idx) = _ at hentry
  rw [h.free, ← howner, hentry]
  simp

theorem cpudlSet_invalid_represents (h : cp.Represents d) (cpu : Fin n) :
    (cpudlSet cp cpu dl false).Represents (Function.update d cpu none) := by
  cases hold : cp.cpuToIdx cpu with
  | none =>
      have hsame : Function.update d cpu none = d := by
        rw [← h.absent cpu hold, Function.update_eq_self]
      simp only [hsame, cpudlSet, hold]
      exact h
  | some idx =>
      obtain ⟨hordered, hkept, hfree⟩ := remove_spec h.toOrdered hold
        (insert cpu (raise (cp.moveLast cpu idx) idx).1.freeCpus)
      simp only [cpudlSet, hold]
      refine ⟨hordered, ?_⟩
      intro c
      rw [hkept, hfree]
      exact h.mem_insert_free cpu c

theorem cpudlSet_valid_represents (h : cp.Represents d) (cpu : Fin n)
    (hdl : dl.toNat < 2 ^ 63) :
    (cpudlSet cp cpu dl true).Represents (Function.update d cpu (some dl)) := by
  cases hold : cp.cpuToIdx cpu with
  | none =>
      have howner : (cp.append cpu).owner ((cp.append cpu).size - 1) = cpu := by
        simp [Cpudl.owner, Cpudl.append]
      have hlt : (cp.append cpu).size - 1 < (cp.append cpu).size := by
        change cp.size + 1 - 1 < cp.size + 1
        omega
      have hfree : (cp.append cpu).freeCpus = cp.freeCpus := rfl
      obtain ⟨hordered, hkept⟩ := cpudlChangeKey_spec (h.toOrdered.append hold) hlt hdl
      rw [howner, Function.update_idem] at hordered
      simp only [cpudlSet, hold]
      refine ⟨hordered.withFree _, ?_⟩
      intro c
      rw [Cpudl.withFree, hkept, hfree]
      exact h.mem_erase_free cpu c
  | some idx =>
      obtain ⟨hidx, howner⟩ := (h.index cpu idx).mp hold
      obtain ⟨hordered, hkept⟩ := cpudlChangeKey_spec h.toOrdered hidx hdl
      rw [howner] at hordered
      simp only [cpudlSet, hold]
      refine ⟨hordered, ?_⟩
      intro c
      rw [hkept, ← Finset.erase_eq_of_notMem (h.not_free hold)]
      exact h.mem_erase_free cpu c

/-- `cpudl_set` is an update of the map. -/
theorem cpudlSet_represents (h : cp.Represents d) (cpu : Fin n) (isValid : Bool)
    (hdl : isValid = true → dl.toNat < 2 ^ 63) :
    (cpudlSet cp cpu dl isValid).Represents
      (Function.update d cpu (if isValid then some dl else none)) := by
  cases isValid with
  | false => exact cpudlSet_invalid_represents h cpu
  | true => exact cpudlSet_valid_represents h cpu (hdl rfl)

end Calls

/-! ## Whole runs -/

section Runs

variable {d : Fin n → Option UInt64} {cp : Cpudl n}

structure SetCall (n : ℕ) where
  cpu : Fin n
  dl : UInt64
  isValid : Bool

def SetCall.deadline (x : SetCall n) : Option UInt64 := if x.isValid then some x.dl else none

def Cpudl.apply (cp : Cpudl n) (x : SetCall n) : Cpudl n := cpudlSet cp x.cpu x.dl x.isValid

/-- The deadline that the latest call for a processor has set. -/
def lastDeadline (calls : List (SetCall n)) (c : Fin n) : Option UInt64 :=
  (calls.reverse.find? fun x => x.cpu = c).bind SetCall.deadline

theorem lastDeadline_concat (calls : List (SetCall n)) (x : SetCall n) :
    lastDeadline (calls ++ [x]) = Function.update (lastDeadline calls) x.cpu x.deadline := by
  ext c
  unfold lastDeadline
  rw [List.reverse_concat]
  by_cases hc : c = x.cpu
  · simp [hc]
  · rw [List.find?_cons_of_neg (by simpa using fun h => hc h.symm), Function.update_of_ne hc]

theorem represents_init (hn : 0 < n) : (cpudlInit hn).Represents fun _ => none := by
  refine ⟨⟨⟨?_, ?_, ?_, ?_⟩, ?_⟩, ?_⟩
  · intro c i
    simp [cpudlInit]
  · intro i hi
    exact absurd hi (Nat.not_lt_zero i)
  · intro c _
    rfl
  · intro c v hv
    cases hv
  · intro i _ hi
    exact absurd hi (Nat.not_lt_zero i)
  · intro c
    simp [cpudlInit]

theorem represents_run (hn : 0 < n) {calls : List (SetCall n)}
    (hsmall : ∀ x ∈ calls, x.isValid = true → x.dl.toNat < 2 ^ 63) :
    (run Cpudl.apply (cpudlInit hn) calls).Represents (lastDeadline calls) := by
  induction calls using List.reverseRecOn with
  | nil => exact represents_init hn
  | append_singleton calls x ih =>
      have hprior := ih fun y hy => hsmall y (List.mem_append_left _ hy)
      rw [run_concat, lastDeadline_concat]
      exact cpudlSet_represents hprior x.cpu x.isValid (hsmall x (by simp))

/-- No processor has a later deadline than `v`, which is one of them. -/
def Latest (d : Fin n → Option UInt64) (c : Fin n) (v : UInt64) : Prop :=
  d c = some v ∧ ∀ c' v', d c' = some v' → v' ≤ v

theorem Cpudl.Represents.latest_maximum (h : cp.Represents d) (hpos : 0 < cp.size) :
    Latest d (cpudlMaximum cp) (cp.elements 0).dl := by
  refine ⟨h.entry 0 hpos, ?_⟩
  intro c v hv
  obtain ⟨i, hi⟩ : ∃ i, cp.cpuToIdx c = some i := by
    apply Option.ne_none_iff_exists'.mp
    intro hnone
    rw [h.absent c hnone] at hv
    cases hv
  obtain ⟨hlt, howner⟩ := (h.index c i).mp hi
  have hentry := h.entry i hlt
  change d (cp.owner i) = _ at hentry
  rw [howner, hv] at hentry
  rw [Option.some.inj hentry]
  exact h.heap.le_root hlt

theorem Cpudl.Represents.size_eq_zero_iff (h : cp.Represents d) :
    cp.size = 0 ↔ ∀ c, d c = none := by
  constructor
  · intro hzero c
    apply h.absent
    rw [Option.eq_none_iff_forall_ne_some]
    intro i hi
    have hlt := ((h.index c i).mp hi).1
    omega
  · intro hnone
    by_contra hsize
    have hentry := h.entry 0 (by omega)
    rw [hnone] at hentry
    cases hentry

/-- After any calls with deadlines below half the range: the heap has at most one
entry for each processor, the processors without a deadline are the free ones, and
if any has a deadline, the one at the root has the latest. -/
theorem maximum_run (hn : 0 < n) {calls : List (SetCall n)}
    (hsmall : ∀ x ∈ calls, x.isValid = true → x.dl.toNat < 2 ^ 63) :
    (run Cpudl.apply (cpudlInit hn) calls).size ≤ n ∧
      (∀ c, c ∈ (run Cpudl.apply (cpudlInit hn) calls).freeCpus ↔ lastDeadline calls c = none) ∧
      ((∃ c, lastDeadline calls c ≠ none) →
        ∃ v, Latest (lastDeadline calls)
          (cpudlMaximum (run Cpudl.apply (cpudlInit hn) calls)) v) := by
  have hrun := represents_run hn hsmall
  refine ⟨?_, hrun.free, ?_⟩
  · have hcard := hrun.index.size_le
    rwa [Fintype.card_fin] at hcard
  · intro hsome
    have hpos : 0 < (run Cpudl.apply (cpudlInit hn) calls).size := by
      apply Nat.pos_of_ne_zero
      intro hzero
      obtain ⟨c, hc⟩ := hsome
      exact hc (hrun.size_eq_zero_iff.mp hzero c)
    exact ⟨_, hrun.latest_maximum hpos⟩

def threeCalls : List (SetCall 2) :=
  [⟨⟨0, by decide⟩, 5, true⟩, ⟨⟨1, by decide⟩, 9, true⟩, ⟨⟨0, by decide⟩, 0, false⟩]

theorem small_threeCalls : ∀ x ∈ threeCalls, x.isValid = true → x.dl.toNat < 2 ^ 63 := by
  decide

theorem maximum_run_threeCalls :
    (cpudlMaximum (run Cpudl.apply (cpudlInit Nat.two_pos) threeCalls)).val = 1 := by
  have honly : ∀ c : Fin 2, lastDeadline threeCalls c ≠ none → c.val = 1 := by decide
  obtain ⟨v, hv, -⟩ := (maximum_run Nat.two_pos small_threeCalls).2.2 ⟨⟨1, by decide⟩, by decide⟩
  exact honly _ (by rw [hv]; simp)

/-- A processor that will do for a task: one without a deadline, or the one with
the latest of all, if that comes after the task's. -/
def Suits (d : Fin n → Option UInt64) (p : Task n) (c : Fin n) : Prop :=
  c ∈ p.cpusAllowed ∧ (d c = none ∨ ∃ v, Latest d c v ∧ p.deadline < v)

theorem Cpudl.Represents.suits_findMaximum (h : cp.Represents d) {p : Task n}
    (hp : p.deadline.toNat < 2 ^ 63) {laterMask : Option (Finset (Fin n))} {c : Fin n}
    (hc : (cp.findMaximum p laterMask).1 = some c) : Suits d p c := by
  unfold Cpudl.findMaximum at hc
  split_ifs at hc with hroot
  obtain rfl := Option.some.inj hc
  refine ⟨hroot.1, ?_⟩
  rcases Nat.eq_zero_or_pos cp.size with hzero | hpos
  · -- an empty heap still names the processor last at its root, which is free
    exact Or.inl (h.size_eq_zero_iff.mp hzero _)
  · exact Or.inr ⟨_, h.latest_maximum hpos,
      (dlTimeBefore_iff hp (h.toHolds.key_lt hpos)).mp hroot.2⟩

theorem Cpudl.Represents.pick_free (h : cp.Represents d) (any : CpumaskAny n)
    {allowed active : Finset (Fin n)} (hnonempty : (cp.freeCpus ∩ allowed ∩ active).Nonempty) :
    any.pick (cp.freeCpus ∩ allowed ∩ active) ∈ allowed ∩ active ∧
      d (any.pick (cp.freeCpus ∩ allowed ∩ active)) = none := by
  have hmem := any.pick_mem _ hnonempty
  generalize any.pick (cp.freeCpus ∩ allowed ∩ active) = c at hmem
  rw [Finset.mem_inter, Finset.mem_inter, h.free] at hmem
  exact ⟨Finset.mem_inter.mpr ⟨hmem.1.2, hmem.2⟩, hmem.1.1⟩

theorem Cpudl.Represents.suits_cpudlFind (h : cp.Represents d) {any : CpumaskAny n}
    {active : Finset (Fin n)} {p : Task n} (hp : p.deadline.toNat < 2 ^ 63)
    {laterMask : Option (Finset (Fin n))} {c : Fin n}
    (hc : (cpudlFind any active cp p laterMask).1 = some c) : Suits d p c := by
  unfold cpudlFind at hc
  cases laterMask with
  | none => exact h.suits_findMaximum hp hc
  | some mask =>
      simp only at hc
      split_ifs at hc with hallowed hactive
      · obtain rfl := Option.some.inj hc
        obtain ⟨hmem, hnone⟩ := h.pick_free any hactive
        exact ⟨(Finset.mem_inter.mp hmem).1, Or.inl hnone⟩
      · exact h.suits_findMaximum hp hc
      · exact h.suits_findMaximum hp hc

theorem Cpudl.Represents.cpudlFind_free (h : cp.Represents d) (any : CpumaskAny n)
    {active mask : Finset (Fin n)} {p : Task n} {c : Fin n} (hc : c ∈ p.cpusAllowed ∩ active)
    (hnone : d c = none) :
    ∃ c ∈ p.cpusAllowed ∩ active, d c = none ∧
      (cpudlFind any active cp p (some mask)).1 = some c := by
  obtain ⟨hallowed, hactive⟩ := Finset.mem_inter.mp hc
  have hmem : c ∈ cp.freeCpus ∩ p.cpusAllowed :=
    Finset.mem_inter.mpr ⟨(h.free c).mpr hnone, hallowed⟩
  have hboth : (cp.freeCpus ∩ p.cpusAllowed ∩ active).Nonempty :=
    ⟨c, Finset.mem_inter.mpr ⟨hmem, hactive⟩⟩
  obtain ⟨hpicked, hpickedNone⟩ := h.pick_free any hboth
  refine ⟨_, hpicked, hpickedNone, ?_⟩
  rw [cpudlFind, if_pos ⟨c, hmem⟩, if_pos hboth]

/-- After any such calls, whatever masks the scheduler passes: the processor that
`cpudl_find` returns suits the task, and if some allowed and active processor is
free and the caller has a mask, it returns a free one. -/
theorem find_run (hn : 0 < n) {calls : List (SetCall n)}
    (hsmall : ∀ x ∈ calls, x.isValid = true → x.dl.toNat < 2 ^ 63) (any : CpumaskAny n)
    (active : Finset (Fin n)) {p : Task n} (hp : p.deadline.toNat < 2 ^ 63)
    (laterMask : Option (Finset (Fin n))) :
    (∀ c, (cpudlFind any active (run Cpudl.apply (cpudlInit hn) calls) p laterMask).1 = some c →
      Suits (lastDeadline calls) p c) ∧
    (laterMask ≠ none → (∃ c ∈ p.cpusAllowed ∩ active, lastDeadline calls c = none) →
      ∃ c ∈ p.cpusAllowed ∩ active, lastDeadline calls c = none ∧
        (cpudlFind any active (run Cpudl.apply (cpudlInit hn) calls) p laterMask).1 = some c) := by
  have hrun := represents_run hn hsmall
  constructor
  · intro c hc
    exact hrun.suits_cpudlFind hp hc
  · intro hmask hfree
    obtain ⟨c, hc, hnone⟩ := hfree
    obtain ⟨mask, rfl⟩ := Option.ne_none_iff_exists'.mp hmask
    exact hrun.cpudlFind_free any hc hnone

def firstOfTwo : CpumaskAny 2 where
  pick mask := if (⟨0, by decide⟩ : Fin 2) ∈ mask then ⟨0, by decide⟩ else ⟨1, by decide⟩
  pick_mem := by decide

theorem find_run_threeCalls :
    ∃ c ∈ Finset.univ ∩ Finset.univ, lastDeadline threeCalls c = none ∧
      (cpudlFind firstOfTwo Finset.univ (run Cpudl.apply (cpudlInit Nat.two_pos) threeCalls)
        ⟨3, Finset.univ⟩ (some ∅)).1 = some c :=
  (find_run Nat.two_pos small_threeCalls firstOfTwo Finset.univ (p := ⟨3, Finset.univ⟩) (by decide)
    (some ∅)).2 (by simp) ⟨⟨0, by decide⟩, by decide⟩

end Runs

end Sotabots.Kernel
