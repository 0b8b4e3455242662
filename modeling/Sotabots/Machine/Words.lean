import Mathlib.Data.List.Basic
/-!
# Words in byte sequences

A 16-bit word as two bytes, and reading and writing words at an offset of a byte
sequence, low byte first.
-/

namespace Sotabots.Machine

/-! ## Two bytes -/

def word (lo hi : UInt8) : UInt16 := lo.toUInt16 ||| (hi.toUInt16 <<< 8)

def loByte (w : UInt16) : UInt8 := w.toUInt8

def hiByte (w : UInt16) : UInt8 := (w >>> 8).toUInt8

theorem toNat_word (lo hi : UInt8) : (word lo hi).toNat = 256 * hi.toNat + lo.toNat := by
  have hlo := lo.toNat_lt
  have hhi := hi.toNat_lt
  have hshift : (hi.toUInt16 <<< 8).toNat = hi.toNat <<< 8 := by
    simp [Nat.shiftLeft_eq]
    omega
  rw [word, UInt16.toNat_or, hshift, UInt8.toNat_toUInt16, Nat.or_comm,
    ← Nat.shiftLeft_add_eq_or_of_lt (by omega), Nat.shiftLeft_eq]
  omega

theorem toNat_loByte (w : UInt16) : (loByte w).toNat = w.toNat % 256 := by
  simp [loByte]

theorem toNat_hiByte (w : UInt16) : (hiByte w).toNat = w.toNat / 256 := by
  have hw := w.toNat_lt
  simp [hiByte, Nat.shiftRight_eq_div_pow]
  omega

@[simp] theorem word_bytes (w : UInt16) : word (loByte w) (hiByte w) = w := by
  apply UInt16.toNat_inj.mp
  rw [toNat_word, toNat_loByte, toNat_hiByte]
  omega

@[simp] theorem loByte_word (lo hi : UInt8) : loByte (word lo hi) = lo := by
  have hlo := lo.toNat_lt
  apply UInt8.toNat_inj.mp
  rw [toNat_loByte, toNat_word]
  omega

@[simp] theorem hiByte_word (lo hi : UInt8) : hiByte (word lo hi) = hi := by
  have hlo := lo.toNat_lt
  apply UInt8.toNat_inj.mp
  rw [toNat_hiByte, toNat_word]
  omega

/-! ## Words at an offset -/

def peek16 (bytes : List UInt8) (a : ℕ) : UInt16 :=
  word (bytes.getD a 0) (bytes.getD (a + 1) 0)

def poke16 (bytes : List UInt8) (a : ℕ) (v : UInt16) : List UInt8 :=
  (bytes.set a (loByte v)).set (a + 1) (hiByte v)

@[simp] theorem length_poke16 (bytes : List UInt8) (a : ℕ) (v : UInt16) :
    (poke16 bytes a v).length = bytes.length := by
  simp [poke16]

theorem getD_poke16_of_ne (bytes : List UInt8) {a i : ℕ} (v : UInt16)
    (h : i < a ∨ a + 1 < i) : (poke16 bytes a v).getD i 0 = bytes.getD i 0 := by
  simp only [poke16, List.getD_eq_getElem?_getD]
  rw [List.getElem?_set_ne (by omega), List.getElem?_set_ne (by omega)]

theorem peek16_poke16 {bytes : List UInt8} {a : ℕ} (h : a + 1 < bytes.length) (v : UInt16) :
    peek16 (poke16 bytes a v) a = v := by
  have hlo : (poke16 bytes a v).getD a 0 = loByte v := by
    simp only [poke16, List.getD_eq_getElem?_getD]
    rw [List.getElem?_set_ne (by omega), List.getElem?_set_self (by omega), Option.getD_some]
  have hhi : (poke16 bytes a v).getD (a + 1) 0 = hiByte v := by
    simp only [poke16, List.getD_eq_getElem?_getD]
    rw [List.getElem?_set_self (by simpa using h), Option.getD_some]
  rw [peek16, hlo, hhi, word_bytes]

theorem peek16_poke16_of_ne (bytes : List UInt8) {a b : ℕ} (v : UInt16)
    (h : b + 1 < a ∨ a + 1 < b) : peek16 (poke16 bytes a v) b = peek16 bytes b := by
  rw [peek16, getD_poke16_of_ne bytes v (by omega), getD_poke16_of_ne bytes v (by omega), peek16]

theorem peek16_set_of_ne (bytes : List UInt8) {a i : ℕ} (b : UInt8) (h : i < a ∨ a + 1 < i) :
    peek16 (bytes.set i b) a = peek16 bytes a := by
  simp only [peek16, List.getD_eq_getElem?_getD]
  rw [List.getElem?_set_ne (by omega), List.getElem?_set_ne (by omega)]

theorem peek16_take (bytes : List UInt8) {a n : ℕ} (h : a + 1 < n) :
    peek16 (bytes.take n) a = peek16 bytes a := by
  simp only [peek16, List.getD_eq_getElem?_getD]
  rw [List.getElem?_take_of_lt (by omega), List.getElem?_take_of_lt h]

theorem peek16_append_left {front : List UInt8} (back : List UInt8) {a : ℕ}
    (h : a + 1 < front.length) : peek16 (front ++ back) a = peek16 front a := by
  simp only [peek16, List.getD_eq_getElem?_getD]
  rw [List.getElem?_append_left (by omega), List.getElem?_append_left h]

theorem peek16_append_right (front back : List UInt8) {a b : ℕ} (h : a = front.length + b) :
    peek16 (front ++ back) a = peek16 back b := by
  simp only [peek16, List.getD_eq_getElem?_getD]
  rw [List.getElem?_append_right (by omega), List.getElem?_append_right (by omega),
    show a - front.length = b by omega, show a + 1 - front.length = b + 1 by omega]

theorem peek16_drop (bytes : List UInt8) (n a : ℕ) :
    peek16 (bytes.drop n) a = peek16 bytes (n + a) := by
  simp only [peek16, List.getD_eq_getElem?_getD, List.getElem?_drop]
  rfl

theorem poke16_append {front part back : List UInt8} {a b : ℕ} (ha : a = front.length + b)
    (hb : b + 1 < part.length) (v : UInt16) :
    poke16 (front ++ (part ++ back)) a v = front ++ (poke16 part b v ++ back) := by
  have hlo : (front ++ (part ++ back)).set a (loByte v) =
      front ++ (part.set b (loByte v) ++ back) := by
    rw [List.set_append_right a _ (by omega), List.set_append_left _ _ (by omega),
      show a - front.length = b by omega]
  rw [poke16, hlo, List.set_append_right _ _ (by omega),
    List.set_append_left _ _ (by rw [List.length_set]; omega),
    show a + 1 - front.length = b + 1 by omega]
  rfl

def pokeAll (bytes : List UInt8) : List (ℕ × UInt16) → List UInt8
  | [] => bytes
  | (a, v) :: rest => pokeAll (poke16 bytes a v) rest

@[simp] theorem length_pokeAll (bytes : List UInt8) (words : List (ℕ × UInt16)) :
    (pokeAll bytes words).length = bytes.length := by
  induction words generalizing bytes with
  | nil => rfl
  | cons w rest ih => rw [pokeAll, ih, length_poke16]

end Sotabots.Machine
