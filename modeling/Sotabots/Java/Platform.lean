import Mathlib.Data.List.Basic
import Mathlib.Logic.Function.Basic
/-!
# The Java platform

What the robot code uses of it.  A string is a sequence of UTF-16 code units, and
a data stream is the list of bytes still to come before end of stream.  `readUTF`
is the documented decoder: a two-byte big-endian length, then that many bytes of
modified UTF-8.  Array accesses check their bounds, as the virtual machine does.
-/

namespace Sotabots.Java

/-! ## Strings and `java.io.DataInput` -/

/-- The UTF-16 code units of a `java.lang.String`. -/
abbrev JavaString := List UInt16

/-- A string literal of the source (all of them are ASCII). -/
def literal (s : String) : JavaString :=
  s.toList.map fun c => c.toNat.toUInt16

inductive IOException
  | eof
  | utfDataFormat
  deriving DecidableEq, Repr

def readBoolean : List UInt8 → Except IOException (Bool × List UInt8)
  | [] => .error .eof
  | b :: rest => .ok (b != 0, rest)

def readUnsignedShort : List UInt8 → Except IOException (Nat × List UInt8)
  | hi :: lo :: rest => .ok (hi.toNat * 256 + lo.toNat, rest)
  | _ => .error .eof

def readFully (n : Nat) (stream : List UInt8) :
    Except IOException (List UInt8 × List UInt8) :=
  if n ≤ stream.length then .ok (stream.take n, stream.drop n) else .error .eof

def isContinuation (b : UInt8) : Bool := b &&& 0xC0 == 0x80

/-- Modified UTF-8: one, two or three bytes per code unit. -/
def decodeUTF : List UInt8 → Except IOException JavaString
  | [] => .ok []
  | a :: rest =>
      if a < 0x80 then
        (decodeUTF rest).map (a.toUInt16 :: ·)
      else if 0xC0 ≤ a ∧ a < 0xE0 then
        match rest with
        | b :: rest =>
            if isContinuation b then
              (decodeUTF rest).map
                ((((a &&& 0x1F).toUInt16 <<< 6) ||| (b &&& 0x3F).toUInt16) :: ·)
            else .error .utfDataFormat
        | [] => .error .utfDataFormat
      else if 0xE0 ≤ a ∧ a < 0xF0 then
        match rest with
        | b :: c :: rest =>
            if isContinuation b && isContinuation c then
              (decodeUTF rest).map
                ((((a &&& 0x0F).toUInt16 <<< 12) ||| ((b &&& 0x3F).toUInt16 <<< 6) |||
                  (c &&& 0x3F).toUInt16) :: ·)
            else .error .utfDataFormat
        | _ => .error .utfDataFormat
      else .error .utfDataFormat

def readUTF (stream : List UInt8) : Except IOException (JavaString × List UInt8) := do
  let (length, stream) ← readUnsignedShort stream
  let (bytes, stream) ← readFully length stream
  let text ← decodeUTF bytes
  return (text, stream)

theorem decodeUTF_ascii {bytes : List UInt8} (hascii : ∀ b ∈ bytes, b < 0x80) :
    decodeUTF bytes = .ok (bytes.map UInt8.toUInt16) := by
  induction bytes with
  | nil => rfl
  | cons b rest ih =>
      have hrest := ih fun c hc => hascii c (by simp [hc])
      unfold decodeUTF
      rw [if_pos (hascii b (by simp)), hrest]
      rfl

/-- A seven-bit stream is decoded to a strictly shorter text, or runs out: the
first two bytes are spent on the length. -/
theorem readUTF_ascii {stream : List UInt8} (hascii : ∀ b ∈ stream, b < 0x80) :
    readUTF stream = .error .eof ∨
      ∃ text rest, readUTF stream = .ok (text, rest) ∧ text.length < stream.length := by
  match stream, hascii with
  | [], _ => exact Or.inl rfl
  | [_], _ => exact Or.inl rfl
  | hi :: lo :: rest, hascii =>
      by_cases hlen : hi.toNat * 256 + lo.toNat ≤ rest.length
      · right
        have htake : ∀ b ∈ rest.take (hi.toNat * 256 + lo.toNat), b < 0x80 := fun b hb =>
          hascii b (by simp [List.mem_of_mem_take hb])
        refine ⟨(rest.take (hi.toNat * 256 + lo.toNat)).map UInt8.toUInt16,
          rest.drop (hi.toNat * 256 + lo.toNat), ?_, ?_⟩
        · simp only [readUTF, readUnsignedShort, readFully, if_pos hlen, bind, Except.bind,
            decodeUTF_ascii htake]
          rfl
        · simp only [List.length_map, List.length_take, List.length_cons]
          omega
      · left
        simp only [readUTF, readUnsignedShort, readFully, if_neg hlen, bind, Except.bind]

/-- A stream without control characters announces at least 8 KiB, and runs out if
it is shorter. -/
theorem readUTF_printable {stream : List UInt8} (hprintable : ∀ b ∈ stream, 32 ≤ b.toNat)
    (hshort : stream.length < 8194) : readUTF stream = .error .eof := by
  match stream, hprintable, hshort with
  | [], _, _ => rfl
  | [_], _, _ => rfl
  | hi :: lo :: rest, hprintable, hshort =>
      have hhigh : 32 ≤ hi.toNat := hprintable hi (by simp)
      have hlong : ¬ hi.toNat * 256 + lo.toNat ≤ rest.length := by
        simp only [List.length_cons] at hshort
        omega
      simp only [readUTF, readUnsignedShort, readFully, if_neg hlong, bind, Except.bind]

/-! ## Arrays

An array given by a function of the index computes: a load evaluates the function,
a store updates it. -/

structure IndexOutOfBounds where
  index : ℕ
  deriving DecidableEq, Repr

variable {α : Type} {n i : ℕ}

def load (array : Array α) (i : ℕ) : Except IndexOutOfBounds α :=
  if h : i < array.size then .ok array[i] else .error ⟨i⟩

def store (array : Array α) (i : ℕ) (value : α) : Except IndexOutOfBounds (Array α) :=
  if h : i < array.size then .ok (array.set i value) else .error ⟨i⟩

def tabulate (n : ℕ) (f : ℕ → α) : Array α := Array.ofFn fun i : Fin n => f i

@[simp] theorem size_tabulate (f : ℕ → α) : (tabulate n f).size = n := by
  simp [tabulate]

theorem load_tabulate (f : ℕ → α) (hi : i < n) : load (tabulate n f) i = .ok (f i) := by
  unfold load
  rw [dif_pos (by simpa using hi)]
  simp [tabulate]

theorem store_tabulate (f : ℕ → α) (value : α) (hi : i < n) :
    store (tabulate n f) i value = .ok (tabulate n (Function.update f i value)) := by
  unfold store
  rw [dif_pos (by simpa using hi)]
  congr 1
  apply Array.ext
  · simp
  · intro j hj hj'
    rw [Array.getElem_set]
    by_cases hij : i = j
    · simp [tabulate, hij]
    · have hji : j ≠ i := fun h => hij h.symm
      simp [tabulate, hij, Function.update_of_ne hji]

theorem tabulate_const (value : α) : tabulate n (fun _ => value) = Array.replicate n value := by
  apply Array.ext
  · simp
  · intro j hj hj'
    simp [tabulate]

end Sotabots.Java
