import Sotabots.Java.Platform
/-!
# `Network` and the vision computer's `send`

The robot asks the vision computer for a boolean (`listenBool`) or for a pair of
coordinates (`listenCoor`) over one TCP connection; the Python side answers any
accepted connection with the text of a value (`send`).  The two sides do not
share a framing: the receivers take the first byte as a truth value, or the
first two as a length.
-/

namespace Sotabots.Network

open Java

/-! ## The robot's side -/

/-- One attempt to connect: whether the socket opens and, if the data stream
does, the bytes on it up to end of stream. -/
structure Link where
  socket : Except IOException Unit
  stream : Except IOException (List UInt8)

structure Reply (α : Type) where
  value : α
  printed : Option JavaString

/-- Both listeners: connect, open the data stream, read; any `IOException` prints
the code of the stage it came from and gives the value for failure. -/
def listen {α : Type} (failed : α) (readCode : String)
    (read : List UInt8 → Except IOException (α × List UInt8)) (link : Link) : Reply α :=
  match link.socket with
  | .error _ => ⟨failed, some (literal "Error code 221")⟩
  | .ok _ =>
      match link.stream with
      | .error _ => ⟨failed, some (literal "Error code 222")⟩
      | .ok bytes =>
          match read bytes with
          | .error _ => ⟨failed, some (literal readCode)⟩
          | .ok (value, _) => ⟨value, none⟩

def listenBool : Link → Reply Int :=
  listen (-1) "Error code 223" fun bytes => do
    let (seen, rest) ← readBoolean bytes
    return (if seen then 1 else 0, rest)

def listenCoor : Link → Reply JavaString :=
  listen (literal "-2,-2") "Error code 224" readUTF

/-! ## The vision computer's side -/

/-- A Python value as `send` sees it: an integer, or another object with the
bytes of its `str`. -/
inductive PyValue
  | int (z : Int)
  | other (text : List UInt8)
  deriving DecidableEq, Repr

def asciiBytes (s : String) : List UInt8 :=
  s.toList.map fun c => c.toNat.toUInt8

def PyValue.str : PyValue → List UInt8
  | .int z => asciiBytes z.repr
  | .other text => text

/-- An accepted connection that carries `str(num)` and is then closed. -/
def send (num : PyValue) : Link := ⟨.ok (), .ok num.str⟩

def IsAscii (bytes : List UInt8) : Prop := ∀ b ∈ bytes, b < 0x80

/-! ## Digits -/

theorem mem_repr_nat {n : Nat} {c : Char} (hc : c ∈ n.repr.toList) :
    48 ≤ c.toNat ∧ c.toNat ≤ 57 := by
  rw [Nat.repr_eq_ofList_toDigits, String.toList_ofList] at hc
  have hdigit : c.isDigit = true := Nat.isDigit_of_mem_toDigits (by omega) (by omega) hc
  simp only [Char.isDigit, Bool.and_eq_true, decide_eq_true_eq] at hdigit
  exact hdigit

theorem mem_str_int {z : Int} {b : UInt8} (hb : b ∈ (PyValue.int z).str) :
    b.toNat = 45 ∨ (48 ≤ b.toNat ∧ b.toNat ≤ 57) := by
  have hdigit : ∀ (n : Nat) (c : Char), c ∈ n.repr.toList →
      48 ≤ c.toNat.toUInt8.toNat ∧ c.toNat.toUInt8.toNat ≤ 57 := by
    intro n c hc
    have hrange := mem_repr_nat hc
    have hbyte : c.toNat.toUInt8.toNat = c.toNat := Nat.mod_eq_of_lt (by omega)
    rwa [hbyte]
  simp only [PyValue.str, asciiBytes, List.mem_map] at hb
  obtain ⟨c, hc, rfl⟩ := hb
  cases z with
  | ofNat n => exact Or.inr (hdigit n c hc)
  | negSucc n =>
      simp only [Int.repr, String.toList_append, List.mem_append] at hc
      rcases hc with hminus | hc
      · left
        have hc : c = '-' := by simpa using hminus
        rw [hc]
        rfl
      · exact Or.inr (hdigit _ c hc)

theorem str_int_ne_nil (z : Int) : (PyValue.int z).str ≠ [] := by
  cases z <;> simp [PyValue.str, asciiBytes, Int.repr]

theorem isAscii_str_int (z : Int) : IsAscii (PyValue.int z).str := by
  intro b hb
  have hrange := mem_str_int hb
  rw [UInt8.lt_iff_toNat_lt]
  have hbound : (0x80 : UInt8).toNat = 128 := rfl
  omega

/-! ## What arrives -/

/-- A seven-bit text never arrives as itself: either the length it is taken to
announce runs past its end, or two bytes of it are spent on that length.  Only
the text that failure is reported with comes out as it went in. -/
theorem listenCoor_send_iff {v : PyValue} (hascii : IsAscii v.str) :
    (listenCoor (send v)).value = v.str.map UInt8.toUInt16 ↔
      v.str = asciiBytes "-2,-2" := by
  constructor
  · intro h
    rcases readUTF_ascii hascii with heof | ⟨text, rest, hok, hshort⟩
    · have hfailed : literal "-2,-2" = v.str.map UInt8.toUInt16 := by
        rw [← h]
        simp only [listenCoor, listen, send, heof]
      have hinj : Function.Injective (List.map UInt8.toUInt16) :=
        List.map_injective_iff.mpr fun a b hab => UInt8.toUInt16_inj.mp hab
      apply hinj
      rw [← hfailed]
      decide
    · have harrived : text = v.str.map UInt8.toUInt16 := by
        rw [← h]
        simp only [listenCoor, listen, send, hok]
      rw [harrived, List.length_map] at hshort
      omega
  · intro h
    simp only [listenCoor, listen, send, h]
    decide

/-- Every integer arrives as true, zero included: the byte that is tested is the
code of a digit or of a minus sign. -/
theorem listenBool_send_int (z : Int) : (listenBool (send (.int z))).value = 1 := by
  cases hstr : (PyValue.int z).str with
  | nil => exact absurd hstr (str_int_ne_nil z)
  | cons b rest =>
      have hb : b ≠ 0 := by
        have hmem := mem_str_int (z := z) (b := b) (by simp [hstr])
        rintro rfl
        revert hmem
        decide
      simp [listenBool, listen, send, hstr, readBoolean, hb, bind, Except.bind, pure, Except.pure]

/-- The robot decodes what was sent: a seven-bit text through `listenCoor`, an
integer through `listenBool`. -/
structure Decodes (v : PyValue) : Prop where
  coor : IsAscii v.str → (listenCoor (send v)).value = v.str.map UInt8.toUInt16
  bool : ∀ z, v = .int z → (listenBool (send v)).value = if z = 0 then 0 else 1

/-- A value gets across exactly when it is not an integer and its text is either
not ASCII, so that nothing is asked of it, or the failure text itself. -/
theorem decodes_iff (v : PyValue) :
    Decodes v ↔
      ∃ text, v = .other text ∧ (¬ IsAscii text ∨ text = asciiBytes "-2,-2") := by
  cases v with
  | int z =>
      constructor
      · intro h
        have hascii := isAscii_str_int z
        have htext := (listenCoor_send_iff hascii).mp (h.coor hascii)
        -- the failure text has a comma, which no integer's text has
        have hcomma : (0x2C : UInt8) ∈ (PyValue.int z).str := by
          rw [htext]
          decide
        exact absurd (mem_str_int hcomma) (by decide)
      · rintro ⟨text, h, -⟩
        cases h
  | other text =>
      constructor
      · intro h
        refine ⟨text, rfl, ?_⟩
        by_cases hascii : IsAscii text
        · exact Or.inr ((listenCoor_send_iff (v := .other text) hascii).mp (h.coor hascii))
        · exact Or.inl hascii
      · rintro ⟨text', h, htext⟩
        cases h
        refine ⟨?_, fun z hz => by cases hz⟩
        intro hascii
        exact (listenCoor_send_iff hascii).mpr (htext.resolve_left fun hnot => hnot hascii)

/-- The `1` the vision loop sends is read as a failed connection, and a zero as
true. -/
theorem send_misread :
    (listenCoor (send (.int 1))).value = literal "-2,-2" ∧
      (listenBool (send (.int 0))).value = 1 ∧
      ¬ Decodes (.int 1) ∧ ¬ Decodes (.int 0) := by
  have hcoor : (listenCoor (send (.int 1))).value = literal "-2,-2" := by decide
  have hbool := listenBool_send_int 0
  refine ⟨hcoor, hbool, ?_, ?_⟩
  · intro h
    have harrived := h.coor (isAscii_str_int 1)
    rw [hcoor] at harrived
    revert harrived
    decide
  · intro h
    have harrived := h.bool 0 rfl
    rw [hbool] at harrived
    revert harrived
    decide

end Sotabots.Network
