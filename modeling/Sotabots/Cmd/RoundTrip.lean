import Sotabots.Cmd.File
import Mathlib.Data.List.Infix
/-!
# Saving and loading

What a descriptor stands for is an image: two segments, where they are to be put
and how large they may grow.  A file whose segments have got to the disk loads as the
image it was saved from, with its places only if they were asked for; a file that
`load_cmd` accepts holds an image, and `load_cmd` runs past the end of a block
exactly on the headers that announce more than they reserve.
-/

namespace Sotabots.Cmd

open Machine

/-! ## Images -/

structure Image where
  code : List UInt8
  data : List UInt8
  codeBase : UInt16
  dataBase : UInt16
  codeMax : ℕ
  dataMax : ℕ
  deriving DecidableEq, Repr

def CmdDesc.image (d : CmdDesc) : Image where
  code := (d.cs.getD []).take d.csLen
  data := (d.ds.getD []).take d.dsLen
  codeBase := d.csBase
  dataBase := d.dsBase
  codeMax := d.csMax
  dataMax := d.dsMax

/-- A segment of `len` bytes that may grow to `max`, in a block. -/
structure Extent (block : Option (List UInt8)) (len max : ℕ) : Prop where
  held : ∃ b, block = some b ∧ len ≤ b.length
  pos : 0 < len
  le : len ≤ max
  lt : max < 16 * 65536
  len_paras : len % 16 = 0
  max_paras : max % 16 = 0

structure CmdDesc.WellFormed (d : CmdDesc) : Prop where
  code : Extent d.cs d.csLen d.csMax
  data : Extent d.ds d.dsLen d.dsMax

theorem toNat_paras {n : ℕ} (h : n < 16 * 65536) : (UInt16.ofNat (n / 16)).toNat = n / 16 := by
  rw [UInt16.toNat_ofNat']
  omega

/-! ## Loading -/

def fileImage (bytes : List UInt8) : Image where
  code := (bytes.drop 128).take (16 * (peekw bytes 1).toNat)
  data := ((bytes.drop 128).drop (16 * (peekw bytes 1).toNat)).take (16 * (peekw bytes 10).toNat)
  codeBase := peekw bytes 3
  dataBase := peekw bytes 12
  codeMax := 16 * (peekw bytes 5).toNat
  dataMax := 16 * (peekw bytes 14).toNat

/-- A complete file whose header reserves what it announces. -/
structure Loadable (bytes : List UInt8) : Prop where
  code_pos : 0 < (peekw bytes 1).toNat
  data_pos : 0 < (peekw bytes 10).toNat
  code_le : (peekw bytes 1).toNat ≤ (peekw bytes 5).toNat
  data_le : (peekw bytes 10).toNat ≤ (peekw bytes 14).toNat
  complete : 128 + 16 * (peekw bytes 1).toNat + 16 * (peekw bytes 10).toNat ≤ bytes.length

theorem readHeader_take (d : CmdDesc) (bytes : List UInt8) :
    d.readHeader (bytes.take 128) = d.readHeader bytes := by
  have hword : ∀ a < 127, peekw (bytes.take 128) a = peekw bytes a :=
    fun a ha => peek16_take bytes (by omega)
  simp only [CmdDesc.readHeader]
  rw [hword 1 (by omega), hword 3 (by omega), hword 5 (by omega), hword 10 (by omega),
    hword 12 (by omega), hword 14 (by omega)]

theorem fread_of_fits {block rest : List UInt8} {count : ℕ} (hrest : 16 * count ≤ rest.length)
    (hblock : 16 * count ≤ block.length) :
    fread (some block) count rest =
      .ok ⟨count, rest.take (16 * count) ++ block.drop (16 * count), rest.drop (16 * count)⟩ := by
  have hlength : (rest.take (16 * count)).length = 16 * count := by
    rw [List.length_take]
    omega
  have hitems : 16 * count / 16 = count := by omega
  simp only [fread, hlength, hitems]
  rw [if_neg (by omega)]

theorem extent_of_read (block : List UInt8) {rest : List UInt8} {len max : ℕ} (hpos : 0 < len)
    (hle : len ≤ max) (hmax : max < 65536) (hrest : 16 * len ≤ rest.length) :
    Extent (some (rest.take (16 * len) ++ block)) (len * 16) (max * 16) := by
  refine ⟨⟨_, rfl, ?_⟩, by omega, by omega, by omega, by omega, by omega⟩
  rw [List.length_append, List.length_take]
  omega

theorem take_of_read (block : List UInt8) {rest : List UInt8} {len : ℕ}
    (hrest : 16 * len ≤ rest.length) :
    (rest.take (16 * len) ++ block).take (len * 16) = rest.take (16 * len) := by
  apply List.take_left'
  rw [List.length_take]
  omega

/-- The header is there and `load_cmd` gets its blocks. -/
structure Allocates (heap : Heap) (bytes cs ds : List UInt8) : Prop where
  length : 128 ≤ bytes.length
  code_pos : 0 < (peekw bytes 1).toNat
  data_pos : 0 < (peekw bytes 10).toNat
  code_max : 0 < (peekw bytes 5).toNat
  data_max : 0 < (peekw bytes 14).toNat
  cs : heap.malloc .code (fileImage bytes).codeMax = some cs
  ds : heap.malloc .data (fileImage bytes).dataMax = some ds

theorem loadCmd_of_allocates {heap : Heap} {bytes cs ds : List UInt8}
    (h : Allocates heap bytes cs ds) (d : CmdDesc) :
    loadCmd heap (some bytes) d =
      readSegments { d.readHeader bytes with cs := some cs, ds := some ds } (bytes.drop 128) := by
  have hlength := h.length
  have hcode := h.code_pos
  have hdata := h.data_pos
  have hcodeMax := h.code_max
  have hdataMax := h.data_max
  have hcs : heap.malloc .code (16 * (d.readHeader bytes).csMax) = some cs := h.cs
  have hds : heap.malloc .data (16 * (d.readHeader bytes).dsMax) = some ds := h.ds
  have halloc : allocCmd heap (d.readHeader bytes) (16 * (d.readHeader bytes).csMax)
      (16 * (d.readHeader bytes).dsMax) =
      (none, { d.readHeader bytes with cs := some cs, ds := some ds }) := by
    rw [allocCmd, if_neg, hcs, hds]
    simp only [CmdDesc.readHeader]
    omega
  have hpos : ¬ ((d.readHeader bytes).csLen = 0 ∨ (d.readHeader bytes).dsLen = 0) := by
    simp only [CmdDesc.readHeader]
    omega
  simp only [loadCmd, readHeader_take, halloc, Option.isSome_none]
  rw [if_neg (by omega), if_neg hpos, if_neg (by simp)]

theorem loadCmd_of_not_allocates {heap : Heap} {bytes : List UInt8}
    (h : ¬ ∃ cs ds, Allocates heap bytes cs ds) (d : CmdDesc) :
    ∃ boo d', loadCmd heap (some bytes) d = .ok (some boo, d') := by
  simp only [loadCmd, readHeader_take]
  split_ifs with hlength hpos halloc
  · exact ⟨_, _, rfl⟩
  · exact ⟨_, _, rfl⟩
  · obtain ⟨boo, hboo⟩ := Option.isSome_iff_exists.mp halloc
    exact ⟨boo, _, by rw [← hboo]⟩
  · exfalso
    apply h
    revert halloc
    unfold allocCmd
    split_ifs with hmax
    · simp
    · cases hcs : heap.malloc .code (16 * (d.readHeader bytes).csMax) with
      | none => simp
      | some cs =>
          cases hds : heap.malloc .data (16 * (d.readHeader bytes).dsMax) with
          | none => simp
          | some ds =>
              intro _
              simp only [CmdDesc.readHeader] at hpos hmax
              exact ⟨cs, ds, by omega, by omega, by omega, by omega, by omega, hcs, hds⟩

/-- A complete file with room for its segments is loaded, if there is memory. -/
theorem loadCmd_of_loadable {heap : Heap} {bytes cs ds : List UInt8} (h : Loadable bytes)
    (hcs : heap.malloc .code (fileImage bytes).codeMax = some cs)
    (hds : heap.malloc .data (fileImage bytes).dataMax = some ds) (d : CmdDesc) :
    ∃ d', loadCmd heap (some bytes) d = .ok (none, d') ∧ d'.WellFormed ∧
      d'.image = fileImage bytes := by
  have hcode := h.code_le
  have hcodePos := h.code_pos
  have hdata := h.data_le
  have hdataPos := h.data_pos
  have hcomplete := h.complete
  have hcsLength : cs.length = 16 * (peekw bytes 5).toNat := heap.length_malloc _ _ _ hcs
  have hdsLength : ds.length = 16 * (peekw bytes 14).toNat := heap.length_malloc _ _ _ hds
  have hcodeRead : 16 * (peekw bytes 1).toNat ≤ (bytes.drop 128).length := by
    rw [List.length_drop]
    omega
  have hdataRead : 16 * (peekw bytes 10).toNat ≤
      ((bytes.drop 128).drop (16 * (peekw bytes 1).toNat)).length := by
    rw [List.length_drop, List.length_drop]
    omega
  rw [loadCmd_of_allocates ⟨by omega, hcodePos, hdataPos, by omega, by omega, hcs, hds⟩]
  simp only [readSegments, CmdDesc.readHeader, bind, Except.bind, pure, Except.pure]
  rw [fread_of_fits hcodeRead (by omega)]
  simp only [Nat.lt_irrefl, if_false]
  rw [fread_of_fits hdataRead (by omega)]
  simp only [Nat.lt_irrefl, if_false]
  refine ⟨_, rfl, ⟨?_, ?_⟩, ?_⟩
  · exact extent_of_read _ hcodePos hcode (peekw bytes 5).toNat_lt hcodeRead
  · exact extent_of_read _ hdataPos hdata (peekw bytes 14).toNat_lt hdataRead
  · simp only [CmdDesc.image, fileImage, Option.getD_some, take_of_read _ hcodeRead,
      take_of_read _ hdataRead]
    simp only [Nat.mul_comm]

theorem fread_eq (block rest : List UInt8) (count : ℕ) :
    fread (some block) count rest =
      if block.length < min (16 * count) rest.length then .error .overflow
      else .ok ⟨min (16 * count) rest.length / 16,
        rest.take (16 * count) ++ block.drop (min (16 * count) rest.length),
        rest.drop (16 * count)⟩ := by
  simp only [fread, List.length_take]

section Segments

variable {cmd : CmdDesc} {cs ds rest : List UInt8}

theorem readSegments_error_iff (hcs : cmd.cs = some cs) (hds : cmd.ds = some ds) :
    (∃ f, readSegments cmd rest = .error f) ↔
      cs.length < min (16 * cmd.csLen) rest.length ∨
        16 * cmd.csLen ≤ rest.length ∧
          ds.length < min (16 * cmd.dsLen) (rest.length - 16 * cmd.csLen) := by
  simp only [readSegments, hcs, hds, fread_eq, bind, Except.bind]
  by_cases hcode : cs.length < min (16 * cmd.csLen) rest.length
  · simp [hcode]
  · rw [if_neg hcode]
    by_cases hshort : rest.length < 16 * cmd.csLen
    · have hitems : min (16 * cmd.csLen) rest.length / 16 < cmd.csLen := by omega
      simp only [hitems, if_true, pure, Except.pure]
      simp
      omega
    · have hitems : ¬ min (16 * cmd.csLen) rest.length / 16 < cmd.csLen := by omega
      simp only [hitems, if_false, List.length_drop]
      by_cases hdata : ds.length < min (16 * cmd.dsLen) (rest.length - 16 * cmd.csLen)
      · simp [hdata]
        omega
      · rw [if_neg hdata]
        simp only [pure, Except.pure]
        split_ifs <;> simp [hdata, hcode]

theorem fits_of_readSegments {d' : CmdDesc} (hcs : cmd.cs = some cs) (hds : cmd.ds = some ds)
    (h : readSegments cmd rest = .ok (none, d')) :
    16 * cmd.csLen ≤ cs.length ∧ 16 * cmd.dsLen ≤ ds.length ∧
      16 * cmd.csLen + 16 * cmd.dsLen ≤ rest.length := by
  have hsafe : ¬ ∃ f, readSegments cmd rest = .error f := by
    rw [h]
    simp
  rw [readSegments_error_iff hcs hds] at hsafe
  simp only [readSegments, hcs, hds, fread_eq, bind, Except.bind, pure, Except.pure] at h
  rw [if_neg (by omega)] at h
  by_cases hcode : min (16 * cmd.csLen) rest.length / 16 < cmd.csLen
  · simp [hcode] at h
  · simp only [hcode, if_false, List.length_drop] at h
    rw [if_neg (by omega)] at h
    by_cases hdata : min (16 * cmd.dsLen) (rest.length - 16 * cmd.csLen) / 16 < cmd.dsLen
    · simp [hdata] at h
    · omega

end Segments

theorem loadable_of_loadCmd {heap : Heap} {bytes : List UInt8} {d d' : CmdDesc}
    (h : loadCmd heap (some bytes) d = .ok (none, d')) :
    Loadable bytes ∧ ∃ cs ds, Allocates heap bytes cs ds := by
  by_cases halloc : ∃ cs ds, Allocates heap bytes cs ds
  · obtain ⟨cs, ds, hall⟩ := halloc
    rw [loadCmd_of_allocates hall] at h
    have hlength := hall.length
    have hcsLength : cs.length = 16 * (peekw bytes 5).toNat := heap.length_malloc _ _ _ hall.cs
    have hdsLength : ds.length = 16 * (peekw bytes 14).toNat := heap.length_malloc _ _ _ hall.ds
    obtain ⟨hcode, hdata, hcomplete⟩ := fits_of_readSegments rfl rfl h
    simp only [CmdDesc.readHeader, List.length_drop] at hcode hdata hcomplete
    exact ⟨⟨hall.code_pos, hall.data_pos, by omega, by omega, by omega⟩, cs, ds, hall⟩
  · obtain ⟨boo, e, hboo⟩ := loadCmd_of_not_allocates halloc d
    rw [hboo] at h
    simp at h

/-- `load_cmd` accepts the complete files with room for their segments, and no
others. -/
theorem loadCmd_accepts_iff (heap : Heap) (bytes : List UInt8) (d : CmdDesc) :
    (∃ d', loadCmd heap (some bytes) d = .ok (none, d')) ↔
      Loadable bytes ∧ ∃ cs ds, Allocates heap bytes cs ds := by
  constructor
  · intro h
    obtain ⟨d', hd'⟩ := h
    exact loadable_of_loadCmd hd'
  · intro h
    obtain ⟨hloadable, cs, ds, hall⟩ := h
    obtain ⟨d', hd', -⟩ := loadCmd_of_loadable hloadable hall.cs hall.ds d
    exact ⟨d', hd'⟩

/-- The file supplies more of a segment than its header reserves. -/
def Overruns (bytes : List UInt8) : Prop :=
  16 * (peekw bytes 5).toNat < min (16 * (peekw bytes 1).toNat) (bytes.length - 128) ∨
    128 + 16 * (peekw bytes 1).toNat ≤ bytes.length ∧
      16 * (peekw bytes 14).toNat <
        min (16 * (peekw bytes 10).toNat) (bytes.length - 128 - 16 * (peekw bytes 1).toNat)

/-- `load_cmd` writes past the end of a block exactly on the files that supply
more of a segment than they reserve; it has no check against them. -/
theorem loadCmd_overruns_iff (heap : Heap) (bytes : List UInt8) (d : CmdDesc) :
    (∃ f, loadCmd heap (some bytes) d = .error f) ↔
      (∃ cs ds, Allocates heap bytes cs ds) ∧ Overruns bytes := by
  by_cases halloc : ∃ cs ds, Allocates heap bytes cs ds
  · obtain ⟨cs, ds, hall⟩ := halloc
    have hlength := hall.length
    have hcsLength : cs.length = 16 * (peekw bytes 5).toNat := heap.length_malloc _ _ _ hall.cs
    have hdsLength : ds.length = 16 * (peekw bytes 14).toNat := heap.length_malloc _ _ _ hall.ds
    rw [loadCmd_of_allocates hall, readSegments_error_iff rfl rfl]
    simp only [CmdDesc.readHeader, List.length_drop, Overruns, hcsLength, hdsLength]
    constructor
    · intro h
      exact ⟨⟨cs, ds, hall⟩, by omega⟩
    · intro h
      have hover := h.2
      omega
  · obtain ⟨boo, e, hboo⟩ := loadCmd_of_not_allocates halloc d
    rw [hboo]
    simp [halloc]

/-! ## Headers -/

structure HeaderWords (bytes : List UInt8) (csLen csMax dsLen dsMax : ℕ)
    (csBase dsBase : UInt16) : Prop where
  csLen : (peekw bytes 1).toNat = csLen
  csBase : peekw bytes 3 = csBase
  csMax : (peekw bytes 5).toNat = csMax
  dsLen : (peekw bytes 10).toNat = dsLen
  dsBase : peekw bytes 12 = dsBase
  dsMax : (peekw bytes 14).toNat = dsMax

theorem HeaderWords.append {header : List UInt8} {csLen csMax dsLen dsMax : ℕ}
    {csBase dsBase : UInt16} (h : HeaderWords header csLen csMax dsLen dsMax csBase dsBase)
    (hlength : header.length = 128) (back : List UInt8) :
    HeaderWords (header ++ back) csLen csMax dsLen dsMax csBase dsBase := by
  have hword : ∀ a < 127, peekw (header ++ back) a = peekw header a :=
    fun a ha => peek16_append_left back (by omega)
  constructor
  · rw [hword 1 (by omega), h.csLen]
  · rw [hword 3 (by omega), h.csBase]
  · rw [hword 5 (by omega), h.csMax]
  · rw [hword 10 (by omega), h.dsLen]
  · rw [hword 12 (by omega), h.dsBase]
  · rw [hword 14 (by omega), h.dsMax]

theorem loadable_of_layout {header code data : List UInt8} {csLen csMax dsLen dsMax : ℕ}
    {csBase dsBase : UInt16} (h : HeaderWords header csLen csMax dsLen dsMax csBase dsBase)
    (hheader : header.length = 128) (hcode : code.length = 16 * csLen)
    (hdata : data.length = 16 * dsLen) (hcsLen : 0 < csLen) (hdsLen : 0 < dsLen)
    (hcsMax : csLen ≤ csMax) (hdsMax : dsLen ≤ dsMax) (tail : List UInt8) :
    Loadable (header ++ (code ++ (data ++ tail))) ∧
      fileImage (header ++ (code ++ (data ++ tail))) =
        ⟨code, data, csBase, dsBase, 16 * csMax, 16 * dsMax⟩ := by
  have hw := h.append hheader (code ++ (data ++ tail))
  constructor
  · constructor
    · rwa [hw.csLen]
    · rwa [hw.dsLen]
    · rwa [hw.csLen, hw.csMax]
    · rwa [hw.dsLen, hw.dsMax]
    · rw [hw.csLen, hw.dsLen]
      simp only [List.length_append]
      omega
  · rw [fileImage, hw.csLen, hw.csBase, hw.csMax, hw.dsLen, hw.dsBase, hw.dsMax,
      List.drop_left' hheader, List.take_left' hcode, List.drop_left' hcode,
      List.take_left' hdata]

theorem length_header (d : CmdDesc) (absolute : Bool) : (d.header absolute).length = 128 := by
  cases absolute <;> simp [CmdDesc.header]

theorem headerWords_header {d : CmdDesc} (hd : d.WellFormed) (absolute : Bool) :
    HeaderWords (d.header absolute) (d.csLen / 16) (d.csMax / 16) (d.dsLen / 16) (d.dsMax / 16)
      (if absolute then d.csBase else 0) (if absolute then d.dsBase else 0) := by
  have hcs := hd.code.le
  have hcm := hd.code.lt
  have hds := hd.data.le
  have hdm := hd.data.lt
  constructor
  · rw [← toNat_paras (by omega : d.csLen < 16 * 65536)]
    cases absolute <;>
      simp [peekw, CmdDesc.header, peek16_poke16, peek16_poke16_of_ne, peek16_set_of_ne]
  · cases absolute <;>
      simp [peekw, CmdDesc.header, peek16_poke16, peek16_poke16_of_ne, peek16_set_of_ne]
    decide
  · rw [← toNat_paras hcm]
    cases absolute <;>
      simp [peekw, CmdDesc.header, peek16_poke16, peek16_poke16_of_ne, peek16_set_of_ne]
  · rw [← toNat_paras (by omega : d.dsLen < 16 * 65536)]
    cases absolute <;> simp [peekw, CmdDesc.header, peek16_poke16, peek16_poke16_of_ne]
  · cases absolute <;>
      simp [peekw, CmdDesc.header, peek16_poke16, peek16_poke16_of_ne, peek16_set_of_ne]
    decide
  · rw [← toNat_paras hdm]
    cases absolute <;> simp [peekw, CmdDesc.header, peek16_poke16]

/-! ## Saving -/

def padding (csparas dsparas : ℕ) : ℕ := (8 - (csparas + dsparas) % 8) % 8

theorem packOut_eq (csparas dsparas : UInt16) (out : List UInt8) :
    packOut csparas dsparas out =
      out ++ List.replicate (16 * padding csparas.toNat dsparas.toNat) 0 := by
  fun_induction packOut csparas dsparas out with
  | case1 dsparas out hdone => simp [padding, hdone]
  | case2 dsparas out hmore ih =>
      have hnext : (dsparas + 1).toNat = (dsparas.toNat + 1) % 65536 := by
        simp [UInt16.toNat_add]
      have hpadding : padding csparas.toNat dsparas.toNat =
          padding csparas.toNat (dsparas + 1).toNat + 1 := by
        rw [hnext]
        unfold padding
        omega
      rw [ih, hpadding, List.append_assoc, List.replicate_append_replicate]
      congr 2
      omega

def CmdDesc.written (d : CmdDesc) (absolute : Bool) : List UInt8 :=
  d.header absolute ++ (d.image.code ++ (d.image.data ++
    List.replicate (16 * padding (d.csLen / 16) (d.dsLen / 16)) 0))

theorem items_of_room {t : Target} {out : List UInt8} {size count : ℕ}
    (h : out.length + size * count ≤ t.room) : t.items out size count = count := by
  rw [Target.items, if_pos h]

theorem fwrite_eq (t : Target) (out : List UInt8) {block : List UInt8} {size count : ℕ}
    (hblock : size * count ≤ block.length) :
    fwrite t out (some block) size count =
      .ok (t.items out size count, out ++ block.take (size * count)) := by
  rw [fwrite, if_neg (by omega)]

/-- A disk that no byte is sure to get to, and no error of which is noticed. -/
def lostDisk (file : List UInt8) : Target where
  opens := true
  room := 0
  reports _ count := count
  tells _ := 0
  disk out := if out = [] then [] else file
  disk_of_le _ h := by rw [List.length_eq_zero_iff.mp (Nat.le_zero.mp h), if_pos rfl]
  take_prefix_disk _ := List.nil_prefix

section Save

variable {t : Target} {d : CmdDesc} (hd : d.WellFormed)
include hd

theorem CmdDesc.WellFormed.length_code : d.image.code.length = d.csLen := by
  obtain ⟨cs, hcs, hlength⟩ := hd.code.held
  simp only [CmdDesc.image, hcs, Option.getD_some, List.length_take]
  omega

theorem CmdDesc.WellFormed.length_data : d.image.data.length = d.dsLen := by
  obtain ⟨ds, hds, hlength⟩ := hd.data.held
  simp only [CmdDesc.image, hds, Option.getD_some, List.length_take]
  omega

/-- If no call reports an error there is none, and the disk has what became of the
bytes. -/
theorem saveCmd_of_items (absolute : Bool) (hopens : t.opens = true)
    (hheader : t.items [] 1 128 = 128)
    (hcode : t.items (d.header absolute) 16 (d.csLen / 16) = d.csLen / 16)
    (hdata : t.items (d.header absolute ++ d.image.code) 16 (d.dsLen / 16) = d.dsLen / 16) :
    saveCmd t d absolute = .ok (none, some (t.disk (d.written absolute))) := by
  obtain ⟨cs, hcs, hcsLen⟩ := hd.code.held
  obtain ⟨ds, hds, hdsLen⟩ := hd.data.held
  have hcsParas := toNat_paras (lt_of_le_of_lt hd.code.le hd.code.lt)
  have hdsParas := toNat_paras (lt_of_le_of_lt hd.data.le hd.data.lt)
  have hcodeParas := hd.code.len_paras
  have hdataParas := hd.data.len_paras
  have hlength := length_header d absolute
  have hcodeImage : d.image.code = cs.take (16 * (d.csLen / 16)) := by
    rw [CmdDesc.image, hcs, show 16 * (d.csLen / 16) = d.csLen by omega]
    rfl
  have hdataImage : d.image.data = ds.take (16 * (d.dsLen / 16)) := by
    rw [CmdDesc.image, hds, show 16 * (d.dsLen / 16) = d.dsLen by omega]
    rfl
  have hheaderTake : (d.header absolute).take (1 * 128) = d.header absolute :=
    List.take_of_length_le (by omega)
  have hwritten : d.header absolute ++ d.image.code ++ d.image.data ++
      List.replicate (16 * padding (d.csLen / 16) (d.dsLen / 16)) 0 = d.written absolute := by
    simp only [CmdDesc.written, List.append_assoc]
  rw [hcodeImage] at hdata
  simp only [saveCmd, hopens, hcs, hds, hcsParas, hdsParas, bind, Except.bind, pure, Except.pure,
    fwrite_eq t [] (by omega : 1 * 128 ≤ (d.header absolute).length), hheaderTake, hheader,
    List.nil_append, fwrite_eq t _ (by omega : 16 * (d.csLen / 16) ≤ cs.length), hcode,
    fwrite_eq t _ (by omega : 16 * (d.dsLen / 16) ≤ ds.length), hdata, packOut_eq,
    Nat.lt_irrefl, if_false, Bool.true_eq_false]
  rw [← hcodeImage, ← hdataImage, hwritten]

theorem saveCmd_of_room (absolute : Bool) (hopens : t.opens = true)
    (hroom : 128 + d.csLen + d.dsLen ≤ t.room) :
    saveCmd t d absolute = .ok (none, some (t.disk (d.written absolute))) := by
  have hlength := length_header d absolute
  have hcode := hd.length_code
  apply saveCmd_of_items hd absolute hopens
  · exact items_of_room (by rw [List.length_nil]; omega)
  · exact items_of_room (by omega)
  · exact items_of_room (by rw [List.length_append]; omega)

/-- The converse fails: an error that shows only at `fclose` is not noticed, and then
anything may be on the disk. -/
theorem saveCmd_unnoticed (absolute : Bool) (file : List UInt8) :
    ∃ t : Target, saveCmd t d absolute = .ok (none, some file) := by
  have hwritten : d.written absolute ≠ [] := by
    have hlength := length_header d absolute
    intro hnil
    rw [CmdDesc.written, List.append_eq_nil_iff] at hnil
    rw [hnil.1] at hlength
    simp at hlength
  refine ⟨lostDisk file, ?_⟩
  rw [saveCmd_of_items hd absolute rfl]
  · simp only [lostDisk, if_neg hwritten]
  all_goals
    simp only [Target.items, lostDisk, Nat.min_self, ite_self]

theorem length_written (absolute : Bool) :
    (d.written absolute).length ≤ 240 + d.csLen + d.dsLen ∧
      (d.written absolute).length % 128 = 0 := by
  have hlength := length_header d absolute
  have hcode := hd.length_code
  have hdata := hd.length_data
  have hcodeParas := hd.code.len_paras
  have hdataParas := hd.data.len_paras
  simp only [CmdDesc.written, List.length_append, List.length_replicate]
  unfold padding
  omega

end Save

/-! ## Both ways -/

/-- The places of the segments are in the file only if `absolute` is set. -/
def Image.placed (i : Image) (absolute : Bool) : Image :=
  { i with
    codeBase := if absolute then i.codeBase else 0
    dataBase := if absolute then i.dataBase else 0 }

theorem loadable_disk {t : Target} {d : CmdDesc} (hd : d.WellFormed) (absolute : Bool)
    (hroom : 128 + d.csLen + d.dsLen ≤ t.room) :
    Loadable (t.disk (d.written absolute)) ∧
      fileImage (t.disk (d.written absolute)) = d.image.placed absolute := by
  have hheader := length_header d absolute
  have hcode := hd.length_code
  have hdata := hd.length_data
  have hcodeParas := hd.code.len_paras
  have hdataParas := hd.data.len_paras
  have hcodeMax := hd.code.max_paras
  have hdataMax := hd.data.max_paras
  have hcodePos := hd.code.pos
  have hdataPos := hd.data.pos
  have hcodeLe := hd.code.le
  have hdataLe := hd.data.le
  -- the room covers the header and the segments, so they start what is on the disk
  have hstart : d.header absolute ++ (d.image.code ++ d.image.data) <+:
      t.disk (d.written absolute) := by
    refine List.IsPrefix.trans ?_ (t.take_prefix_disk _)
    rw [List.prefix_take_iff]
    constructor
    · rw [CmdDesc.written, ← List.append_assoc d.image.code]
      exact List.prefix_append_right_inj _ |>.mpr (List.prefix_append _ _)
    · simp only [List.length_append]
      omega
  obtain ⟨tail, hfile⟩ := hstart
  rw [← hfile, List.append_assoc, List.append_assoc]
  obtain ⟨hloadable, himage⟩ := loadable_of_layout (headerWords_header hd absolute) hheader
    (by omega : d.image.code.length = 16 * (d.csLen / 16))
    (by omega : d.image.data.length = 16 * (d.dsLen / 16)) (by omega) (by omega) (by omega)
    (by omega) tail
  refine ⟨hloadable, himage.trans ?_⟩
  rw [show 16 * (d.csMax / 16) = d.csMax by omega, show 16 * (d.dsMax / 16) = d.dsMax by omega]
  rfl

/-- If the header and the segments get to the disk, `save_cmd` reports no error and
`load_cmd` reads them back, whatever becomes of the padding; if that gets there too,
the file fills whole records. -/
theorem load_save {heap : Heap} {t : Target} {d : CmdDesc} (absolute : Bool)
    {cs ds : List UInt8} (hd : d.WellFormed) (hopens : t.opens = true)
    (hroom : 128 + d.csLen + d.dsLen ≤ t.room)
    (hcs : heap.malloc .code d.csMax = some cs) (hds : heap.malloc .data d.dsMax = some ds)
    (d₀ : CmdDesc) :
    ∃ file d', saveCmd t d absolute = .ok (none, some file) ∧
      loadCmd heap (some file) d₀ = .ok (none, d') ∧ d'.WellFormed ∧
      d'.image = d.image.placed absolute ∧
      (240 + d.csLen + d.dsLen ≤ t.room → file.length % 128 = 0) := by
  obtain ⟨hloadable, himage⟩ := loadable_disk hd absolute hroom
  obtain ⟨d', hload, hd', hdImage⟩ := loadCmd_of_loadable hloadable (by rw [himage]; exact hcs)
    (by rw [himage]; exact hds) d₀
  refine ⟨_, d', saveCmd_of_room hd absolute hopens hroom, hload, hd', hdImage.trans himage, ?_⟩
  intro hpadding
  obtain ⟨hle, hrecords⟩ := length_written hd absolute
  rw [t.disk_of_le _ (by omega), hrecords]

def endlessHeap : Heap where
  malloc _ n := some (List.replicate n 0xCC)
  length_malloc _ _ _ h := by rw [← Option.some.inj h, List.length_replicate]

/-- A disk of `room` bytes whose errors show only at the end. -/
def smallDisk (room : ℕ) : Target where
  opens := true
  room := room
  reports _ count := count
  tells out := out.length
  disk out := out.take room
  disk_of_le _ h := List.take_of_length_le h
  take_prefix_disk _ := List.prefix_rfl

def onePage : CmdDesc :=
  ⟨some (List.replicate 16 7), some (List.replicate 32 9), 0x60, 0x61, 16, 32, 16, 48⟩

theorem wellFormed_onePage : onePage.WellFormed where
  code := ⟨⟨_, rfl, by decide⟩, by decide, by decide, by decide, by decide, by decide⟩
  data := ⟨⟨_, rfl, by decide⟩, by decide, by decide, by decide, by decide, by decide⟩

theorem load_save_onePage :
    ∃ file d', saveCmd (smallDisk 176) onePage true = .ok (none, some file) ∧
      loadCmd endlessHeap (some file) zeroCmd = .ok (none, d') ∧ d'.image = onePage.image := by
  have hcs : endlessHeap.malloc .code onePage.csMax = some _ := rfl
  obtain ⟨file, d', hsave, hload, -, himage, -⟩ := load_save (t := smallDisk 176) true
    wellFormed_onePage rfl (by decide) hcs rfl zeroCmd
  exact ⟨file, d', hsave, hload, himage⟩

end Sotabots.Cmd
