import Sotabots.Cmd.RoundTrip
import Sotabots.Machine.Trace
/-!
# The system file

`dpgen.c` puts the modules of the operating system into one CMD file: all but two
of their segments go into the code segment, one after another, and words at fixed
places of the modules are set to where the others are.  The copies and the words
are written by offsets into the one big block.  The linked image says what comes
out module by module, and `dpgen` makes that image as long as the offsets fit the
word that `pokew` takes for an address.
-/

namespace Sotabots.Cmd

open Machine

/-! ## The program -/

def onlyIf (len : ℕ) (f : List UInt8 → Except Fault (List UInt8)) (cs : List UInt8) :
    Except Fault (List UInt8) :=
  if len ≠ 0 then f cs else .ok cs

structure Files where
  bdos : Option (List UInt8)
  xios : Option (List UInt8)
  ccp : Option (List UInt8)
  dos : Option (List UInt8)

structure Heaps where
  bdos : Heap
  xios : Heap
  ccp : Heap
  dos : Heap
  sys : Heap

structure Modules where
  bdos : CmdDesc
  xios : CmdDesc
  ccp : CmdDesc
  dos : CmdDesc

namespace Modules

variable (m : Modules)

def xiosCs : ℕ := m.bdos.csLen

def dosCs : ℕ := m.xiosCs + m.xios.csLen

def ccpCs : ℕ := m.dosCs + m.dos.csLen

def ccpDs : ℕ := m.ccpCs + m.ccp.csLen

def dosDs : ℕ := m.ccpDs + m.ccp.dsLen

def sys (glBase : UInt16) : CmdDesc where
  cs := none
  ds := none
  csBase := glBase
  dsBase := glBase + UInt16.ofNat ((m.bdos.csLen + m.xios.csLen + m.ccp.csLen + m.ccp.dsLen +
    m.dos.csLen + m.dos.dsLen) / 16)
  csLen := m.bdos.csLen + m.xios.csLen + m.ccp.csLen + m.ccp.dsLen + m.dos.csLen + m.dos.dsLen
  dsLen := m.xios.dsLen
  csMax := m.bdos.csLen + m.xios.csLen + m.ccp.csLen + m.ccp.dsLen + m.dos.csLen + m.dos.dsLen
  dsMax := m.xios.dsMax

def copyCode (cs : List UInt8) : Except Fault (List UInt8) := do
  let cs ← memcpy cs 0 m.bdos.cs m.bdos.csLen
  let cs ← memcpy cs m.xiosCs m.xios.cs m.xios.csLen
  let cs ← onlyIf m.dos.csLen (fun cs => memcpy cs m.dosCs m.dos.cs m.dos.csLen) cs
  let cs ← memcpy cs m.ccpCs m.ccp.cs m.ccp.csLen
  let cs ← memcpy cs m.ccpDs m.ccp.ds m.ccp.dsLen
  onlyIf m.dos.dsLen (fun cs => memcpy cs m.dosDs m.dos.ds m.dos.dsLen) cs

def copyData (ds : List UInt8) : Except Fault (List UInt8) := do
  let ds ← memcpy ds 0 m.xios.ds m.xios.dsLen
  -- over the start of what was copied before
  memcpy ds 0 m.bdos.ds m.bdos.dsLen

def seg (glBase : UInt16) (o : ℕ) : UInt16 := UInt16.ofNat (o / 16) + glBase

def pokeCode (glBase : UInt16) (cs : List UInt8) : Except Fault (List UInt8) := do
  let cs ← pokew cs 6 (m.sys glBase).dsBase
  let cs ← pokew cs (m.xiosCs + 6) (m.sys glBase).dsBase
  let cs ← onlyIf m.dos.dsLen (fun cs => pokew cs (m.dosCs + 6) (m.sys glBase).dsBase) cs
  let cs ← onlyIf m.dos.dsLen (fun cs => pokew cs (m.dosCs + 8) (seg glBase m.dosDs)) cs
  let cs ← pokew cs m.ccpDs (UInt16.ofNat m.ccp.csLen)
  let cs ← pokew cs (m.ccpDs + 3) (seg glBase m.ccpCs)
  let cs ← pokew cs (m.ccpDs + 6) (UInt16.ofNat m.ccp.dsLen)
  pokew cs (m.ccpDs + 9) (seg glBase m.ccpDs)

def pokeData (glBase : UInt16) (ds : List UInt8) : Except Fault (List UInt8) := do
  let ds ← pokew ds 0x2A (seg glBase m.xiosCs)
  let ds ← pokew ds 0x2E (seg glBase m.xiosCs)
  let ds ← pokew ds 0x42 (if m.dos.dsLen ≠ 0 then seg glBase m.dosCs else 0)
  let ds ← pokew ds 0x44 (seg glBase m.ccpDs)
  pokew ds 0x48 (UInt16.ofNat
    (((m.sys glBase).csMax + (m.sys glBase).dsMax + 0x10 * glBase.toNat) / 16))

end Modules

/-- What `dpgen` leaves: its exit status, what it wrote to `stderr` and `new.sys`. -/
structure Outcome where
  status : ℕ
  stderr : String
  newSys : Option (List UInt8)
  deriving DecidableEq, Repr

def makeSystem (heap : Heap) (t : Target) (glBase : UInt16) (m : Modules) :
    Except Fault Outcome :=
  match allocCmd heap (m.sys glBase) (m.sys glBase).csLen (m.sys glBase).dsLen with
  | (some boo, _) => .ok ⟨1, boo, none⟩
  | (none, sys) => do
      let cs ← m.copyCode (sys.cs.getD [])
      let ds ← m.copyData (sys.ds.getD [])
      let cs ← m.pokeCode glBase cs
      let ds ← m.pokeData glBase ds
      let saved ← saveCmd t { sys with cs := some cs, ds := some ds } true
      return ⟨0, (saved.1.map fun boo => "new.sys: " ++ boo ++ "\n").getD "", saved.2⟩

/-- `dpgen` with its options read. -/
def dpgen (heaps : Heaps) (t : Target) (glBase : UInt16) (files : Files) :
    Except Fault Outcome := do
  let bdos ← loadCmd heaps.bdos files.bdos zeroCmd
  if let some boo := bdos.1 then
    return ⟨1, "bdos.cmd: " ++ boo ++ "\n", none⟩
  let xios ← loadCmd heaps.xios files.xios zeroCmd
  if let some boo := xios.1 then
    return ⟨1, "xios.cmd: " ++ boo ++ "\n", none⟩
  let ccp ← loadCmd heaps.ccp files.ccp zeroCmd
  if let some boo := ccp.1 then
    return ⟨1, "ccp.cmd: " ++ boo ++ "\n", none⟩
  -- the error of this load is not looked at: there may be no DOS module
  let dos ← loadCmd heaps.dos files.dos zeroCmd
  makeSystem heaps.sys t glBase ⟨bdos.2, xios.2, ccp.2, dos.2⟩

/-! ## The linked image -/

/-- The images of the modules.  Without a DOS module its image is empty. -/
structure Parts where
  bdos : Image
  xios : Image
  ccp : Image
  dos : Image

namespace Parts

variable (p : Parts) (glBase : UInt16)

def xiosCs : ℕ := p.bdos.code.length

def dosCs : ℕ := p.xiosCs + p.xios.code.length

def ccpCs : ℕ := p.dosCs + p.dos.code.length

def ccpDs : ℕ := p.ccpCs + p.ccp.code.length

def dosDs : ℕ := p.ccpDs + p.ccp.data.length

def codeLen : ℕ := p.dosDs + p.dos.data.length

def dsBase : UInt16 := Modules.seg glBase p.codeLen

def dosCode : List UInt8 :=
  if p.dos.data = [] then p.dos.code
  else pokeAll p.dos.code [(6, p.dsBase glBase), (8, Modules.seg glBase p.dosDs)]

def ccpData : List UInt8 :=
  pokeAll p.ccp.data
    [(0, UInt16.ofNat p.ccp.code.length), (3, Modules.seg glBase p.ccpCs),
      (6, UInt16.ofNat p.ccp.data.length), (9, Modules.seg glBase p.ccpDs)]

/-- The data segment: the data of the BDOS over those of the XIOS, with the places
of the other modules and the first paragraph after the system. -/
def sysData : List UInt8 :=
  pokeAll (p.bdos.data ++ p.xios.data.drop p.bdos.data.length)
    [(0x2A, Modules.seg glBase p.xiosCs), (0x2E, Modules.seg glBase p.xiosCs),
      (0x42, if p.dos.data = [] then 0 else Modules.seg glBase p.dosCs),
      (0x44, Modules.seg glBase p.ccpDs),
      (0x48, UInt16.ofNat ((p.codeLen + p.xios.dataMax + 0x10 * glBase.toNat) / 16))]

def linked : Image where
  code := [pokeAll p.bdos.code [(6, p.dsBase glBase)], pokeAll p.xios.code [(6, p.dsBase glBase)],
    p.dosCode glBase, p.ccp.code, p.ccpData glBase, p.dos.data].flatten
  data := p.sysData glBase
  codeBase := glBase
  dataBase := p.dsBase glBase
  codeMax := p.codeLen
  dataMax := p.xios.dataMax

end Parts

/-! ## Modules that can be linked -/

def Modules.parts (m : Modules) : Parts := ⟨m.bdos.image, m.xios.image, m.ccp.image, m.dos.image⟩

structure Modules.Loaded (m : Modules) : Prop where
  bdos : m.bdos.WellFormed
  xios : m.xios.WellFormed
  ccp : m.ccp.WellFormed
  dos : m.dos = zeroCmd ∨ m.dos.WellFormed

namespace Modules.Loaded

variable {m : Modules} (hm : m.Loaded)
include hm

theorem length_dosCode : m.dos.image.code.length = m.dos.csLen := by
  rcases hm.dos with hzero | hdos
  · rw [hzero]
    rfl
  · exact hdos.length_code

theorem length_dosData : m.dos.image.data.length = m.dos.dsLen := by
  rcases hm.dos with hzero | hdos
  · rw [hzero]
    rfl
  · exact hdos.length_data

theorem xiosCs_parts : m.parts.xiosCs = m.xiosCs := hm.bdos.length_code

theorem dosCs_parts : m.parts.dosCs = m.dosCs := by
  rw [Parts.dosCs, hm.xiosCs_parts]
  exact congrArg _ hm.xios.length_code

theorem ccpCs_parts : m.parts.ccpCs = m.ccpCs := by
  rw [Parts.ccpCs, hm.dosCs_parts]
  exact congrArg _ hm.length_dosCode

theorem ccpDs_parts : m.parts.ccpDs = m.ccpDs := by
  rw [Parts.ccpDs, hm.ccpCs_parts]
  exact congrArg _ hm.ccp.length_code

theorem dosDs_parts : m.parts.dosDs = m.dosDs := by
  rw [Parts.dosDs, hm.ccpDs_parts]
  exact congrArg _ hm.ccp.length_data

theorem codeLen_parts (glBase : UInt16) : m.parts.codeLen = (m.sys glBase).csLen := by
  have hdata : m.parts.dos.data.length = m.dos.dsLen := hm.length_dosData
  rw [Parts.codeLen, hm.dosDs_parts, hdata]
  simp only [Modules.sys, dosDs, ccpDs, ccpCs, dosCs, xiosCs]
  omega

theorem dsBase_parts (glBase : UInt16) : m.parts.dsBase glBase = (m.sys glBase).dsBase := by
  rw [Parts.dsBase, hm.codeLen_parts glBase, seg, UInt16.add_comm]
  rfl

end Modules.Loaded

/-- The sizes of modules that can be linked: the data segment of the XIOS has room
for that of the BDOS and for the words set there, and the last word to be set in
the code segment has an address that fits a word. -/
structure Parts.Fits (p : Parts) : Prop where
  data : p.bdos.data.length ≤ p.xios.data.length
  words : 0x4A ≤ p.xios.data.length
  address : p.ccpDs + 9 < 65536
  size : p.codeLen < 16 * 65536

structure Modules.Linkable (m : Modules) : Prop extends m.Loaded where
  data : m.bdos.dsLen ≤ m.xios.dsLen
  words : 0x4A ≤ m.xios.dsLen
  address : m.ccpDs + 9 < 65536
  size : m.dosDs + m.dos.dsLen < 16 * 65536

theorem Modules.Loaded.linkable {m : Modules} (hm : m.Loaded) (h : m.parts.Fits) :
    m.Linkable where
  toLoaded := hm
  data := by
    rw [← hm.bdos.length_data, ← hm.xios.length_data]
    exact h.data
  words := by
    rw [← hm.xios.length_data]
    exact h.words
  address := by
    rw [← hm.ccpDs_parts]
    exact h.address
  size := by
    rw [← hm.dosDs_parts, ← hm.length_dosData]
    exact h.size

/-! ## Copies -/

/-- A block whose first `o` bytes are `done`, with `left` bytes to go. -/
structure Filling (cs done : List UInt8) (o left : ℕ) : Prop where
  front : done <+: cs
  length_done : done.length = o
  length : cs.length = o + left

theorem Filling.eq_of_zero {cs done : List UInt8} {o : ℕ} (h : Filling cs done o 0) : cs = done :=
  (h.front.eq_of_length (h.length_done.trans h.length.symm)).symm

section Copies

variable {block : Option (List UInt8)} {len max o left : ℕ} {cs done : List UInt8}

theorem Extent.memcpy_eq (h : Extent block len max) (hroom : o + len ≤ cs.length) :
    memcpy cs o block len =
      .ok (cs.take o ++ (block.getD []).take len ++ cs.drop (o + len)) := by
  obtain ⟨b, rfl, hlength⟩ := h.held
  simp only [memcpy]
  rw [if_neg (by omega), if_neg (by omega), Option.getD_some]

theorem Extent.length_take (h : Extent block len max) :
    ((block.getD []).take len).length = len := by
  obtain ⟨b, rfl, hlength⟩ := h.held
  rw [Option.getD_some, List.length_take]
  omega

theorem Extent.memcpy_next (h : Extent block len max) (hcs : Filling cs done o left)
    (hroom : len ≤ left) :
    ∃ cs', memcpy cs o block len = .ok cs' ∧
      Filling cs' (done ++ (block.getD []).take len) (o + len) (left - len) := by
  have hdone := hcs.length_done
  have hlength := hcs.length
  have hsegment := h.length_take
  have hfront : cs.take o = done := by
    rw [← hdone]
    exact (List.prefix_iff_eq_take.mp hcs.front).symm
  refine ⟨_, h.memcpy_eq (by omega), ?_, ?_, ?_⟩
  · rw [hfront]
    exact List.prefix_append _ _
  · rw [List.length_append]
    omega
  · simp only [hfront, List.length_append, List.length_drop]
    omega

theorem memcpy_optional (h : block = none ∧ len = 0 ∨ Extent block len max)
    (hcs : Filling cs done o left) (hroom : len ≤ left) :
    ∃ cs', onlyIf len (fun cs => memcpy cs o block len) cs = .ok cs' ∧
      Filling cs' (done ++ (block.getD []).take len) (o + len) (left - len) := by
  rcases h with ⟨rfl, rfl⟩ | hextent
  · exact ⟨cs, rfl, by simpa using hcs⟩
  · have hpos := hextent.pos
    rw [onlyIf, if_pos (by omega)]
    exact hextent.memcpy_next hcs hroom

end Copies

theorem Modules.Linkable.dos_segments {m : Modules} (hm : m.Linkable) :
    (m.dos.cs = none ∧ m.dos.csLen = 0 ∨ Extent m.dos.cs m.dos.csLen m.dos.csMax) ∧
      (m.dos.ds = none ∧ m.dos.dsLen = 0 ∨ Extent m.dos.ds m.dos.dsLen m.dos.dsMax) := by
  rcases hm.dos with hzero | hdos
  · rw [hzero]
    exact ⟨Or.inl ⟨rfl, rfl⟩, Or.inl ⟨rfl, rfl⟩⟩
  · exact ⟨Or.inr hdos.code, Or.inr hdos.data⟩

theorem Modules.Linkable.copyCode_eq {m : Modules} (hm : m.Linkable) (glBase : UInt16)
    {cs : List UInt8} (hcs : cs.length = (m.sys glBase).csLen) :
    m.copyCode cs = .ok [m.bdos.image.code, m.xios.image.code, m.dos.image.code,
      m.ccp.image.code, m.ccp.image.data, m.dos.image.data].flatten := by
  simp only [Modules.sys] at hcs
  have hstart : Filling cs [] 0 cs.length := ⟨List.nil_prefix, rfl, by omega⟩
  obtain ⟨cs₁, h₁, hfill₁⟩ := hm.bdos.code.memcpy_next hstart (by omega)
  rw [Nat.zero_add, List.nil_append] at hfill₁
  obtain ⟨cs₂, h₂, hfill₂⟩ := hm.xios.code.memcpy_next (o := m.xiosCs) hfill₁ (by omega)
  obtain ⟨cs₃, h₃, hfill₃⟩ := memcpy_optional (o := m.dosCs) hm.dos_segments.1 hfill₂ (by omega)
  obtain ⟨cs₄, h₄, hfill₄⟩ := hm.ccp.code.memcpy_next (o := m.ccpCs) hfill₃ (by omega)
  obtain ⟨cs₅, h₅, hfill₅⟩ := hm.ccp.data.memcpy_next (o := m.ccpDs) hfill₄ (by omega)
  obtain ⟨cs₆, h₆, hfill₆⟩ := memcpy_optional (o := m.dosDs) hm.dos_segments.2 hfill₅ (by omega)
  have hzero : cs.length - m.bdos.csLen - m.xios.csLen - m.dos.csLen - m.ccp.csLen -
      m.ccp.dsLen - m.dos.dsLen = 0 := by omega
  rw [hzero] at hfill₆
  simp only [Modules.copyCode, h₁, h₂, h₃, h₄, h₅, h₆, bind, Except.bind]
  rw [hfill₆.eq_of_zero]
  simp [CmdDesc.image]

theorem Modules.Linkable.copyData_eq {m : Modules} (hm : m.Linkable) {ds : List UInt8}
    (hds : ds.length = m.xios.dsLen) :
    m.copyData ds =
      .ok (m.bdos.image.data ++ m.xios.image.data.drop m.bdos.image.data.length) := by
  have hdata := hm.data
  have hbdos := hm.bdos.length_data
  have hxios := hm.xios.length_data
  have h₁ : memcpy ds 0 m.xios.ds m.xios.dsLen = .ok m.xios.image.data := by
    rw [hm.xios.data.memcpy_eq (by omega), List.drop_of_length_le (by omega)]
    simp [CmdDesc.image]
  have h₂ := hm.bdos.data.memcpy_eq (o := 0) (by omega : 0 + _ ≤ m.xios.image.data.length)
  simp only [Modules.copyData, h₁, h₂, bind, Except.bind, hbdos]
  simp [CmdDesc.image]

/-! ## Words -/

theorem pokew_of_lt {base : List UInt8} {a : ℕ} (h : a + 1 < base.length) (hword : a < 65536)
    (v : UInt16) : pokew base a v = .ok (poke16 base a v) := by
  rw [pokew, Nat.mod_eq_of_lt hword, if_pos h]

theorem pokew_piece (before : List (List UInt8)) (part : List UInt8) (after : List (List UInt8))
    {a : ℕ} (b : ℕ) (ha : a = before.flatten.length + b) (hb : b + 1 < part.length)
    (hword : a < 65536) (v : UInt16) :
    pokew (before ++ part :: after).flatten a v =
      .ok (before ++ poke16 part b v :: after).flatten := by
  rw [List.flatten_append, List.flatten_cons, pokew_of_lt _ hword, poke16_append ha hb,
    List.flatten_append, List.flatten_cons]
  simp only [List.length_append]
  omega

theorem Extent.sixteen_le {block : Option (List UInt8)} {len max : ℕ} (h : Extent block len max) :
    16 ≤ len := by
  have hpos := h.pos
  have hparas := h.len_paras
  omega

theorem Modules.Linkable.dosData_eq_nil_iff {m : Modules} (hm : m.Linkable) :
    m.parts.dos.data = [] ↔ m.dos.dsLen = 0 := by
  rw [← hm.length_dosData, List.length_eq_zero_iff]
  rfl

theorem Modules.Linkable.pokew_dos {m : Modules} (hm : m.Linkable) (glBase : UInt16)
    (before after : List (List UInt8)) (hbefore : before.flatten.length = m.dosCs) :
    ∃ cs, onlyIf m.dos.dsLen (fun cs => pokew cs (m.dosCs + 6) (m.sys glBase).dsBase)
        (before ++ m.dos.image.code :: after).flatten = .ok cs ∧
      onlyIf m.dos.dsLen (fun cs => pokew cs (m.dosCs + 8) (Modules.seg glBase m.dosDs)) cs =
        .ok (before ++ m.parts.dosCode glBase :: after).flatten := by
  have haddress := hm.address
  rw [Modules.ccpDs, Modules.ccpCs] at haddress
  by_cases hnone : m.dos.dsLen = 0
  · refine ⟨_, by rw [onlyIf, if_neg (by omega)], ?_⟩
    rw [onlyIf, if_neg (by omega), Parts.dosCode, if_pos (hm.dosData_eq_nil_iff.mpr hnone)]
    rfl
  · rcases hm.dos with hzero | hdos
    · exact absurd (by rw [hzero]; rfl) hnone
    · have hcode := hdos.code.sixteen_le
      have hlength := hdos.length_code
      refine ⟨(before ++ poke16 m.dos.image.code 6 (m.sys glBase).dsBase :: after).flatten, ?_, ?_⟩
      · rw [onlyIf, if_pos hnone]
        exact pokew_piece before _ after 6 (by omega) (by omega) (by omega) _
      · rw [onlyIf, if_pos hnone, Parts.dosCode, if_neg (mt hm.dosData_eq_nil_iff.mp hnone),
          hm.dsBase_parts, hm.dosDs_parts]
        exact pokew_piece before _ after 8 (by omega) (by rw [length_poke16]; omega) (by omega) _

theorem Modules.Linkable.length_dosCode_poked {m : Modules} (hm : m.Linkable) (glBase : UInt16) :
    (m.parts.dosCode glBase).length = m.dos.csLen := by
  rw [← hm.length_dosCode, Parts.dosCode]
  split_ifs
  · rfl
  · exact length_pokeAll _ _

theorem Modules.Linkable.pokew_ccp {m : Modules} (hm : m.Linkable) (glBase : UInt16)
    (before after : List (List UInt8)) (hbefore : before.flatten.length = m.ccpDs) :
    (do
      let cs ← pokew (before ++ m.ccp.image.data :: after).flatten m.ccpDs
        (UInt16.ofNat m.ccp.csLen)
      let cs ← pokew cs (m.ccpDs + 3) (Modules.seg glBase m.ccpCs)
      let cs ← pokew cs (m.ccpDs + 6) (UInt16.ofNat m.ccp.dsLen)
      pokew cs (m.ccpDs + 9) (Modules.seg glBase m.ccpDs)) =
      .ok (before ++ m.parts.ccpData glBase :: after).flatten := by
  have haddress := hm.address
  have hlength := hm.ccp.length_data
  have hle := hm.ccp.data.sixteen_le
  have hpoke : ∀ (part : List UInt8) (b : ℕ) (v : UInt16), part.length = m.ccp.dsLen → b ≤ 9 →
      pokew (before ++ part :: after).flatten (m.ccpDs + b) v =
        .ok (before ++ poke16 part b v :: after).flatten := by
    intro part b v hpart hb
    exact pokew_piece before part after b (by omega) (by omega) (by omega) v
  have hfirst := hpoke m.ccp.image.data 0 (UInt16.ofNat m.ccp.csLen) hlength (by omega)
  rw [Nat.add_zero] at hfirst
  rw [hfirst]
  simp only [bind, Except.bind]
  rw [hpoke _ 3 _ (by simpa using hlength) (by omega)]
  simp only
  rw [hpoke _ 6 _ (by simpa using hlength) (by omega)]
  simp only
  rw [hpoke _ 9 _ (by simpa using hlength) (by omega), Parts.ccpData, hm.ccpCs_parts,
    hm.ccpDs_parts, ← hm.ccp.length_code, ← hlength]
  rfl

theorem Modules.Linkable.pokeCode_eq {m : Modules} (hm : m.Linkable) (glBase : UInt16) :
    m.pokeCode glBase [m.bdos.image.code, m.xios.image.code, m.dos.image.code,
      m.ccp.image.code, m.ccp.image.data, m.dos.image.data].flatten =
      .ok (m.parts.linked glBase).code := by
  have haddress := hm.address
  have hbdos := hm.bdos.length_code
  have hxios := hm.xios.length_code
  have hdos := hm.length_dosCode_poked glBase
  have hccp := hm.ccp.length_code
  have hbdosLe := hm.bdos.code.sixteen_le
  have hxiosLe := hm.xios.code.sixteen_le
  have hxiosCs : m.xiosCs = m.bdos.csLen := rfl
  have hdosCs : m.dosCs = m.bdos.csLen + m.xios.csLen := rfl
  have hccpDs : m.ccpDs = m.bdos.csLen + m.xios.csLen + m.dos.csLen + m.ccp.csLen := rfl
  have h₁ : pokew [m.bdos.image.code, m.xios.image.code, m.dos.image.code, m.ccp.image.code,
      m.ccp.image.data, m.dos.image.data].flatten 6 (m.sys glBase).dsBase =
      .ok [poke16 m.bdos.image.code 6 (m.sys glBase).dsBase, m.xios.image.code, m.dos.image.code,
        m.ccp.image.code, m.ccp.image.data, m.dos.image.data].flatten :=
    pokew_piece (a := 6) [] _ [_, _, _, _, _] 6 rfl (by omega) (by omega) _
  generalize hbdos' : poke16 m.bdos.image.code 6 (m.sys glBase).dsBase = bdos' at h₁
  have hbdosLength : bdos'.length = m.bdos.csLen := by rw [← hbdos', length_poke16, hbdos]
  have h₂ : pokew [bdos', m.xios.image.code, m.dos.image.code, m.ccp.image.code,
      m.ccp.image.data, m.dos.image.data].flatten (m.xiosCs + 6) (m.sys glBase).dsBase =
      .ok [bdos', poke16 m.xios.image.code 6 (m.sys glBase).dsBase, m.dos.image.code,
        m.ccp.image.code, m.ccp.image.data, m.dos.image.data].flatten :=
    pokew_piece [_] _ [_, _, _, _] 6 (by simp; omega) (by omega) (by omega) _
  generalize hxios' : poke16 m.xios.image.code 6 (m.sys glBase).dsBase = xios' at h₂
  have hxiosLength : xios'.length = m.xios.csLen := by rw [← hxios', length_poke16, hxios]
  obtain ⟨cs, h₃, h₄⟩ := hm.pokew_dos glBase [bdos', xios']
    [m.ccp.image.code, m.ccp.image.data, m.dos.image.data] (by simp; omega)
  simp only [List.cons_append, List.nil_append] at h₃ h₄
  have h₅ := hm.pokew_ccp glBase [bdos', xios', m.parts.dosCode glBase, m.ccp.image.code]
    [m.dos.image.data] (by simp; omega)
  simp only [Modules.pokeCode, h₁, h₂, h₃, h₄, bind, Except.bind]
  refine h₅.trans ?_
  rw [Parts.linked, hm.dsBase_parts, ← hbdos', ← hxios']
  rfl

theorem Modules.Linkable.pokeData_eq {m : Modules} (hm : m.Linkable) (glBase : UInt16) :
    m.pokeData glBase (m.bdos.image.data ++ m.xios.image.data.drop m.bdos.image.data.length) =
      .ok (m.parts.linked glBase).data := by
  have hdata := hm.data
  have hwords := hm.words
  have hbdos := hm.bdos.length_data
  have hxios := hm.xios.length_data
  have hlength : (m.bdos.image.data ++
      m.xios.image.data.drop m.bdos.image.data.length).length = m.xios.dsLen := by
    rw [List.length_append, List.length_drop]
    omega
  have hpoke : ∀ (base : List UInt8) (a : ℕ) (v : UInt16), base.length = m.xios.dsLen → a ≤ 0x48 →
      pokew base a v = .ok (poke16 base a v) :=
    fun base a v hbase ha => pokew_of_lt (by omega) (by omega) v
  have hdos : (if m.dos.dsLen ≠ 0 then Modules.seg glBase m.dosCs else 0) =
      if m.parts.dos.data = [] then 0 else Modules.seg glBase m.parts.dosCs := by
    rw [hm.dosCs_parts]
    by_cases hnone : m.dos.dsLen = 0
    · rw [if_neg (by omega), if_pos (hm.dosData_eq_nil_iff.mpr hnone)]
    · rw [if_pos hnone, if_neg (mt hm.dosData_eq_nil_iff.mp hnone)]
  unfold Modules.pokeData
  rw [hpoke _ _ _ hlength (by omega)]
  simp only [bind, Except.bind]
  rw [hpoke _ _ _ (by simpa using hlength) (by omega)]
  simp only
  rw [hpoke _ _ _ (by simpa using hlength) (by omega)]
  simp only
  rw [hpoke _ _ _ (by simpa using hlength) (by omega)]
  simp only
  rw [hpoke _ _ _ (by simpa using hlength) (by omega), hdos]
  rw [Parts.linked, Parts.sysData, hm.xiosCs_parts, hm.ccpDs_parts, hm.codeLen_parts glBase]
  rfl

/-! ## The file -/

theorem Modules.Linkable.length_linked {m : Modules} (hm : m.Linkable) (glBase : UInt16) :
    (m.parts.linked glBase).code.length = (m.sys glBase).csLen ∧
      (m.parts.linked glBase).data.length = (m.sys glBase).dsLen := by
  have hdata := hm.data
  have hbdosData : m.parts.bdos.data.length = m.bdos.dsLen := hm.bdos.length_data
  have hxiosData : m.parts.xios.data.length = m.xios.dsLen := hm.xios.length_data
  constructor
  · rw [← hm.codeLen_parts glBase]
    have hdosCode : (m.parts.dosCode glBase).length = m.parts.dos.code.length :=
      (hm.length_dosCode_poked glBase).trans hm.length_dosCode.symm
    simp only [Parts.linked, Parts.ccpData, List.length_flatten, List.map_cons, List.map_nil,
      length_pokeAll, hdosCode, List.sum_cons, List.sum_nil, Parts.codeLen, Parts.dosDs,
      Parts.ccpDs, Parts.ccpCs, Parts.dosCs, Parts.xiosCs]
    omega
  · rw [Parts.linked, Parts.sysData, length_pokeAll, List.length_append, List.length_drop]
    show _ = m.xios.dsLen
    omega

def Modules.linkedDesc (m : Modules) (glBase : UInt16) : CmdDesc :=
  { m.sys glBase with
    cs := some (m.parts.linked glBase).code
    ds := some (m.parts.linked glBase).data }

theorem Modules.Linkable.wellFormed_linkedDesc {m : Modules} (hm : m.Linkable) (glBase : UInt16) :
    (m.linkedDesc glBase).WellFormed := by
  obtain ⟨hcode, hdata⟩ := hm.length_linked glBase
  have hbdos := hm.bdos.code.len_paras
  have hbdosPos := hm.bdos.code.pos
  have hxios := hm.xios.code.len_paras
  have hccpCode := hm.ccp.code.len_paras
  have hccpData := hm.ccp.data.len_paras
  have hdos : m.dos.csLen % 16 = 0 ∧ m.dos.dsLen % 16 = 0 := by
    rcases hm.dos with hzero | hdos
    · rw [hzero]
      exact ⟨rfl, rfl⟩
    · exact ⟨hdos.code.len_paras, hdos.data.len_paras⟩
  have hsize := hm.size
  have hlen : (m.sys glBase).csLen = m.dosDs + m.dos.dsLen := by
    rw [← hm.codeLen_parts glBase, Parts.codeLen, hm.dosDs_parts]
    exact congrArg _ hm.length_dosData
  constructor
  · refine ⟨⟨_, rfl, hcode.symm.le⟩, ?_, le_rfl, ?_, ?_, ?_⟩
    · show 0 < (m.sys glBase).csLen
      simp only [Modules.sys]
      omega
    · show (m.sys glBase).csLen < _
      omega
    · show (m.sys glBase).csLen % 16 = 0
      simp only [Modules.sys]
      omega
    · show (m.sys glBase).csLen % 16 = 0
      simp only [Modules.sys]
      omega
  · exact ⟨⟨_, rfl, hdata.symm.le⟩, hm.xios.data.pos, hm.xios.data.le, hm.xios.data.lt,
      hm.xios.data.len_paras, hm.xios.data.max_paras⟩

theorem Modules.Linkable.image_linkedDesc {m : Modules} (hm : m.Linkable) (glBase : UInt16) :
    (m.linkedDesc glBase).image.placed true = m.parts.linked glBase := by
  obtain ⟨hcode, hdata⟩ := hm.length_linked glBase
  have hcodeTake : (m.parts.linked glBase).code.take (m.sys glBase).csLen =
      (m.parts.linked glBase).code := List.take_of_length_le hcode.le
  have hdataTake : (m.parts.linked glBase).data.take (m.sys glBase).dsLen =
      (m.parts.linked glBase).data := List.take_of_length_le hdata.le
  have hbase := hm.dsBase_parts glBase
  have hmax := hm.codeLen_parts glBase
  simp only [Image.placed, CmdDesc.image, Modules.linkedDesc, Option.getD_some, hcodeTake,
    hdataTake, if_true]
  rw [← hbase]
  show (⟨_, _, _, _, (m.sys glBase).csLen, _⟩ : Image) = _
  rw [← hmax]
  rfl

theorem Modules.Linkable.makeSystem_eq {m : Modules} (hm : m.Linkable) (glBase : UInt16)
    {heap : Heap} {t : Target} {cs ds : List UInt8}
    (hcs : heap.malloc .code (m.sys glBase).csLen = some cs)
    (hds : heap.malloc .data (m.sys glBase).dsLen = some ds) (hopens : t.opens = true)
    (hroom : 128 + (m.sys glBase).csLen + (m.sys glBase).dsLen ≤ t.room) :
    ∃ file, makeSystem heap t glBase m = .ok ⟨0, "", some file⟩ ∧ Loadable file ∧
      fileImage file = m.parts.linked glBase := by
  have hwell := hm.wellFormed_linkedDesc glBase
  have hsave := saveCmd_of_room hwell true hopens hroom
  obtain ⟨hloadable, himage⟩ := loadable_disk hwell true hroom
  refine ⟨_, ?_, hloadable, himage.trans (hm.image_linkedDesc glBase)⟩
  have hpos : ¬ ((m.sys glBase).csLen = 0 ∨ (m.sys glBase).dsLen = 0) := by
    have hcode := hwell.code.pos
    have hdata := hwell.data.pos
    simp only [Modules.linkedDesc] at hcode hdata
    omega
  have halloc : allocCmd heap (m.sys glBase) (m.sys glBase).csLen (m.sys glBase).dsLen =
      (none, { m.sys glBase with cs := some cs, ds := some ds }) := by
    rw [allocCmd, if_neg hpos, hcs, hds]
  have hcopyCode := hm.copyCode_eq glBase (heap.length_malloc _ _ _ hcs)
  have hcopyData := hm.copyData_eq (heap.length_malloc _ _ _ hds)
  have hdesc : ({ m.sys glBase with
      cs := some (m.parts.linked glBase).code
      ds := some (m.parts.linked glBase).data } : CmdDesc) = m.linkedDesc glBase := rfl
  simp only [makeSystem, halloc, Option.getD_some, hcopyCode, hcopyData, hm.pokeCode_eq glBase,
    hm.pokeData_eq glBase, hdesc, hsave, bind, Except.bind, pure, Except.pure, Option.map_none,
    Option.getD_none]

/-! ## Where the words lead -/

/-- The word at `a` of the data segment is the paragraph, in memory, at which `m`
stands in the code segment. -/
def Image.LeadsTo (i : Image) (a : ℕ) (m : List UInt8) : Prop :=
  m <+: i.code.drop (16 * (peek16 i.data a - i.codeBase).toNat)

theorem toNat_seg_sub (glBase : UInt16) {o : ℕ} (hparas : o % 16 = 0) (hlt : o < 16 * 65536) :
    16 * (Modules.seg glBase o - glBase).toNat = o := by
  rw [Modules.seg, UInt16.add_sub_cancel, toNat_paras hlt]
  omega

theorem Parts.leadsTo (p : Parts) (glBase : UInt16) {a o : ℕ} (before after : List (List UInt8))
    (m : List UInt8) (hcode : (p.linked glBase).code = (before ++ m :: after).flatten)
    (ho : before.flatten.length = o) (hparas : o % 16 = 0) (hlt : o < 16 * 65536)
    (hword : peek16 (p.linked glBase).data a = Modules.seg glBase o) :
    (p.linked glBase).LeadsTo a m := by
  have hbase : (p.linked glBase).codeBase = glBase := rfl
  rw [Image.LeadsTo, hword, hbase, toNat_seg_sub glBase hparas hlt, hcode, List.flatten_append,
    List.drop_left' ho, List.flatten_cons]
  exact List.prefix_append _ _

theorem Parts.Fits.peek16_data {p : Parts} (h : p.Fits) (glBase : UInt16) :
    peek16 (p.linked glBase).data 0x2A = Modules.seg glBase p.xiosCs ∧
      peek16 (p.linked glBase).data 0x2E = Modules.seg glBase p.xiosCs ∧
      peek16 (p.linked glBase).data 0x42 =
        (if p.dos.data = [] then 0 else Modules.seg glBase p.dosCs) ∧
      peek16 (p.linked glBase).data 0x44 = Modules.seg glBase p.ccpDs := by
  have hdata := h.data
  have hwords := h.words
  have hlength : 0x4A ≤ (p.bdos.data ++ p.xios.data.drop p.bdos.data.length).length := by
    rw [List.length_append, List.length_drop]
    omega
  simp only [Parts.linked, Parts.sysData, pokeAll]
  generalize p.bdos.data ++ p.xios.data.drop p.bdos.data.length = base at hlength
  refine ⟨?_, ?_, ?_, ?_⟩
  · rw [peek16_poke16_of_ne _ _ (by omega), peek16_poke16_of_ne _ _ (by omega),
      peek16_poke16_of_ne _ _ (by omega), peek16_poke16_of_ne _ _ (by omega),
      peek16_poke16 (by omega)]
  · rw [peek16_poke16_of_ne _ _ (by omega), peek16_poke16_of_ne _ _ (by omega),
      peek16_poke16_of_ne _ _ (by omega), peek16_poke16 (by simp only [length_poke16]; omega)]
  · rw [peek16_poke16_of_ne _ _ (by omega), peek16_poke16_of_ne _ _ (by omega),
      peek16_poke16 (by simp only [length_poke16]; omega)]
  · rw [peek16_poke16_of_ne _ _ (by omega), peek16_poke16 (by simp only [length_poke16]; omega)]

/-- The words of the data segment lead to the XIOS, the DOS module and the data of
the command processor. -/
structure Parts.Reachable (p : Parts) (glBase : UInt16) (i : Image) : Prop where
  xios : i.LeadsTo 0x2A (pokeAll p.xios.code [(6, p.dsBase glBase)])
  xios' : i.LeadsTo 0x2E (pokeAll p.xios.code [(6, p.dsBase glBase)])
  dos : p.dos.data ≠ [] → i.LeadsTo 0x42 (p.dosCode glBase)
  ccp : i.LeadsTo 0x44 (p.ccpData glBase)

theorem Modules.Linkable.reachable {m : Modules} (hm : m.Linkable) (hfits : m.parts.Fits)
    (glBase : UInt16) : m.parts.Reachable glBase (m.parts.linked glBase) := by
  obtain ⟨hxiosWord, hxiosWord', hdosWord, hccpWord⟩ := hfits.peek16_data glBase
  have haddress := hm.address
  have hbdos := hm.bdos.code.len_paras
  have hxios := hm.xios.code.len_paras
  have hccp := hm.ccp.code.len_paras
  have hdos : m.dos.csLen % 16 = 0 := by
    rcases hm.dos with hzero | hdos
    · rw [hzero]
      rfl
    · exact hdos.code.len_paras
  have hbdosLength : m.parts.bdos.code.length = m.bdos.csLen := hm.bdos.length_code
  have hxiosLength : m.parts.xios.code.length = m.xios.csLen := hm.xios.length_code
  have hccpLength : m.parts.ccp.code.length = m.ccp.csLen := hm.ccp.length_code
  have hdosLength := hm.length_dosCode_poked glBase
  have hxiosCs : m.parts.xiosCs = m.bdos.csLen := hm.xiosCs_parts
  have hdosCs : m.parts.dosCs = m.bdos.csLen + m.xios.csLen := hm.dosCs_parts
  have hccpDs : m.parts.ccpDs = m.bdos.csLen + m.xios.csLen + m.dos.csLen + m.ccp.csLen :=
    hm.ccpDs_parts
  have hccpDs' : m.ccpDs = m.bdos.csLen + m.xios.csLen + m.dos.csLen + m.ccp.csLen := rfl
  constructor
  · exact m.parts.leadsTo glBase [_] [_, _, _, _] _ rfl (by simp; omega) (by omega) (by omega)
      hxiosWord
  · exact m.parts.leadsTo glBase [_] [_, _, _, _] _ rfl (by simp; omega) (by omega) (by omega)
      hxiosWord'
  · intro hsome
    rw [if_neg hsome] at hdosWord
    exact m.parts.leadsTo glBase [_, _] [_, _, _] _ rfl (by simp; omega) (by omega) (by omega)
      hdosWord
  · exact m.parts.leadsTo glBase [_, _, _, _] [_] _ rfl (by simp; omega) (by omega) (by omega)
      hccpWord

/-! ## From the files -/

def Heap.Ample (heap : Heap) : Prop := ∀ seg n, ∃ block, heap.malloc seg n = some block

def fileParts (bdos xios ccp : List UInt8) (dos : Option (List UInt8)) : Parts where
  bdos := fileImage bdos
  xios := fileImage xios
  ccp := fileImage ccp
  dos := (dos.map fileImage).getD ⟨[], [], 0, 0, 0, 0⟩

theorem loadCmd_of_ample {heap : Heap} (hheap : heap.Ample) {bytes : List UInt8}
    (h : Loadable bytes) :
    ∃ d, loadCmd heap (some bytes) zeroCmd = .ok (none, d) ∧ d.WellFormed ∧
      d.image = fileImage bytes := by
  obtain ⟨cs, hcs⟩ := hheap .code (fileImage bytes).codeMax
  obtain ⟨ds, hds⟩ := hheap .data (fileImage bytes).dataMax
  exact loadCmd_of_loadable h hcs hds zeroCmd

theorem loadCmd_dos {heap : Heap} (hheap : heap.Ample) {dos : Option (List UInt8)}
    (h : ∀ bytes, dos = some bytes → Loadable bytes) :
    ∃ boo d, loadCmd heap dos zeroCmd = .ok (boo, d) ∧ (d = zeroCmd ∨ d.WellFormed) ∧
      d.image = (dos.map fileImage).getD ⟨[], [], 0, 0, 0, 0⟩ := by
  cases dos with
  | none => exact ⟨_, zeroCmd, rfl, Or.inl rfl, rfl⟩
  | some bytes =>
      obtain ⟨d, hload, hd, himage⟩ := loadCmd_of_ample hheap (h bytes rfl)
      exact ⟨none, d, hload, Or.inr hd, himage⟩

/-- The system file of four files that can be loaded, or of three without a DOS
module, holds the linked image of their images. -/
theorem dpgen_links {heaps : Heaps} {t : Target} (glBase : UInt16) {bdos xios ccp : List UInt8}
    {dos : Option (List UInt8)} (hbdos : Loadable bdos) (hxios : Loadable xios)
    (hccp : Loadable ccp) (hdos : ∀ bytes, dos = some bytes → Loadable bytes)
    (hfits : (fileParts bdos xios ccp dos).Fits)
    (hmemory : heaps.bdos.Ample ∧ heaps.xios.Ample ∧ heaps.ccp.Ample ∧ heaps.dos.Ample ∧
      heaps.sys.Ample)
    (hopens : t.opens = true)
    (hroom : 240 + (fileParts bdos xios ccp dos).codeLen + (fileImage xios).data.length ≤ t.room) :
    ∃ file, dpgen heaps t glBase ⟨some bdos, some xios, some ccp, dos⟩ =
        .ok ⟨0, "", some file⟩ ∧ Loadable file ∧
      fileImage file = (fileParts bdos xios ccp dos).linked glBase ∧
      (fileParts bdos xios ccp dos).Reachable glBase (fileImage file) := by
  obtain ⟨hbdosHeap, hxiosHeap, hccpHeap, hdosHeap, hsysHeap⟩ := hmemory
  obtain ⟨b, hloadBdos, hb, hbImage⟩ := loadCmd_of_ample hbdosHeap hbdos
  obtain ⟨x, hloadXios, hx, hxImage⟩ := loadCmd_of_ample hxiosHeap hxios
  obtain ⟨c, hloadCcp, hc, hcImage⟩ := loadCmd_of_ample hccpHeap hccp
  obtain ⟨boo, d, hloadDos, hd, hdImage⟩ := loadCmd_dos hdosHeap hdos
  have hparts : (⟨b, x, c, d⟩ : Modules).parts = fileParts bdos xios ccp dos := by
    rw [Modules.parts, hbImage, hxImage, hcImage, hdImage]
    rfl
  rw [← hparts] at hfits hroom ⊢
  have hloaded : (⟨b, x, c, d⟩ : Modules).Loaded := ⟨hb, hx, hc, hd⟩
  obtain ⟨cs, hcs⟩ := hsysHeap .code ((⟨b, x, c, d⟩ : Modules).sys glBase).csLen
  obtain ⟨ds, hds⟩ := hsysHeap .data ((⟨b, x, c, d⟩ : Modules).sys glBase).dsLen
  have hspace : 128 + ((⟨b, x, c, d⟩ : Modules).sys glBase).csLen +
      ((⟨b, x, c, d⟩ : Modules).sys glBase).dsLen ≤ t.room := by
    rw [← hloaded.codeLen_parts glBase]
    rw [← hxImage, hx.length_data] at hroom
    exact (Nat.add_le_add_right (Nat.add_le_add_right (by decide) _) _).trans hroom
  have hlinkable := hloaded.linkable hfits
  obtain ⟨file, hmake, hloadable, himage⟩ :=
    hlinkable.makeSystem_eq glBase hcs hds hopens hspace
  refine ⟨file, ?_, hloadable, himage, himage ▸ hlinkable.reachable hfits glBase⟩
  simp only [dpgen, hloadBdos, hloadXios, hloadCcp, hloadDos, bind, Except.bind, hmake]

def smallModule : List UInt8 :=
  pokeAll (List.replicate (128 + 16 + 80) 0) [(1, 1), (5, 1), (10, 5), (14, 5)]

theorem loadable_smallModule : Loadable smallModule := by
  constructor <;> decide +kernel

theorem ample_endlessHeap : endlessHeap.Ample := fun _ _ => ⟨_, rfl⟩

def endlessHeaps : Heaps :=
  ⟨endlessHeap, endlessHeap, endlessHeap, endlessHeap, endlessHeap⟩

theorem dpgen_links_smallModule :
    ∃ file, dpgen endlessHeaps (smallDisk 1000) 0x60
        ⟨some smallModule, some smallModule, some smallModule, some smallModule⟩ =
        .ok ⟨0, "", some file⟩ ∧ Loadable file := by
  have hfits : (fileParts smallModule smallModule smallModule (some smallModule)).Fits := by
    constructor <;> decide +kernel
  have hmemory : endlessHeaps.bdos.Ample ∧ endlessHeaps.xios.Ample ∧ endlessHeaps.ccp.Ample ∧
      endlessHeaps.dos.Ample ∧ endlessHeaps.sys.Ample :=
    ⟨ample_endlessHeap, ample_endlessHeap, ample_endlessHeap, ample_endlessHeap,
      ample_endlessHeap⟩
  obtain ⟨file, hfile, hloadable, -⟩ :=
    dpgen_links (t := smallDisk 1000) 0x60 loadable_smallModule loadable_smallModule
      loadable_smallModule (fun _ h => Option.some.inj h ▸ loadable_smallModule) hfits hmemory rfl
      (by decide +kernel)
  exact ⟨file, hfile, hloadable⟩

end Sotabots.Cmd
