import Sotabots.Cmd.RoundTrip
import Sotabots.Machine.Trace
/-!
# From EXE to CMD

`exe2cmd.c` turns the BDOS, linked as an EXE of two segments, into a CMD file: it
copies the code, moves the segments of the far pointers at the start of the data
by the load address, and fills the data segment up to its fixed size.  The file
it writes is one that `load_cmd` accepts.
-/

namespace Sotabots.Cmd

open Machine

/-! ## The program -/

def dsParas : UInt16 := 0xF0

def addgroup (type : UInt8) (paras base minparas maxparas : UInt16) : List UInt8 :=
  [type, loByte paras, hiByte paras, loByte base, hiByte base, loByte minparas, hiByte minparas,
    loByte maxparas, hiByte maxparas]

/-- The buffer `exe_header`, the unread part of the EXE file and what has been handed
over for the CMD file. -/
structure Streams where
  header : List UInt8
  exe : List UInt8
  cmd : List UInt8

/-- One turn of `mvbytes`.  At the end of the EXE file `fgetc` gives -1, which
`fputc` writes as FF. -/
def moveByte (s : Streams) : Streams :=
  match s.exe with
  | [] => { s with cmd := s.cmd ++ [0xFF] }
  | c :: rest => { s with exe := rest, cmd := s.cmd ++ [c] }

def mvbytes : ℕ → Streams → Streams
  | 0, s => s
  | count + 1, s => mvbytes count (moveByte s)

/-- A negative count is counted down for ever. -/
def mvbytesLong (count : Int) (s : Streams) : Option Streams :=
  if count < 0 then none else some (mvbytes count.toNat s)

def readWord (s : Streams) : Streams :=
  { s with
    header := s.exe.take 2 ++ s.header.drop (s.exe.take 2).length
    exe := s.exe.drop 2 }

def fixup (glBase : UInt16) (s : Streams) (n : ℕ) : Streams :=
  -- the address of the DOS module stays as it is
  if n = 6 then mvbytes 4 s
  else
    let s := readWord (mvbytes 2 s)
    let seg := peek16 s.header 0 + glBase
    { s with cmd := s.cmd ++ [loByte seg] ++ [hiByte seg] }

def padRecord (pos : Int) (cmd : List UInt8) : List UInt8 :=
  if pos % 128 = 0 then cmd else padRecord (pos + 1) (cmd ++ [0])
termination_by ((128 - pos % 128) % 128).toNat
decreasing_by omega

def copySegments (glBase dseg dstop : UInt16) (s : Streams) : Option Streams := do
  let s ← mvbytesLong (16 * dseg.toNat - 8) s
  let s := run (fixup glBase) (mvbytes 40 s) (List.range 8)
  mvbytesLong (16 * ((dstop.toNat : Int) - dseg.toNat) - 72) s

/-- `exe2cmd` with its options read: the exit status and what is on the disk, or
nothing if it never ends. -/
def exe2cmd (t : Target) (glBase : UInt16) (exe : Option (List UInt8)) :
    Option (ℕ × Option (List UInt8)) :=
  match exe with
  | none => some (1, none)
  | some bytes =>
      let header := bytes.take 0x208
      if header.length < 0x208 ∨ peek16 header 8 ≠ 32 ∨ 6 < peek16 header 32 then some (1, none)
      else
        let dseg := peek16 header 0x206
        let dstop := dseg + dsParas
        let groups := addgroup 1 dseg 0 dseg 0 ++ addgroup 2 (dstop - dseg) 0 dsParas 0 ++
          List.replicate 110 0
        let cmd := groups ++ header.drop 0x200
        if t.opens = false then some (2, none)
        else if t.items [] 1 128 < 128 then some (2, some (t.disk groups))
        else if t.items groups 1 8 < 8 then some (2, some (t.disk cmd))
        else do
          -- from here on by `fputc`, whose result is not looked at
          let s ← copySegments glBase dseg dstop ⟨header, bytes.drop 0x208, cmd⟩
          return (0, some (t.disk (padRecord (t.ftell s.cmd) s.cmd)))

/-! ## Copying -/

/-- `n` bytes of a stream that goes on with FF. -/
def padded (bytes : List UInt8) (n : ℕ) : List UInt8 :=
  bytes.take n ++ List.replicate (n - bytes.length) 0xFF

@[simp] theorem length_padded (bytes : List UInt8) (n : ℕ) : (padded bytes n).length = n := by
  rw [padded, List.length_append, List.length_take, List.length_replicate]
  omega

theorem padded_nil_succ (n : ℕ) : padded [] (n + 1) = 0xFF :: padded [] n := by
  simp [padded, List.replicate_succ]

theorem padded_cons_succ (c : UInt8) (rest : List UInt8) (n : ℕ) :
    padded (c :: rest) (n + 1) = c :: padded rest n := by
  simp [padded]

theorem padded_of_le {bytes : List UInt8} {n : ℕ} (h : n ≤ bytes.length) :
    padded bytes n = bytes.take n := by
  rw [padded, Nat.sub_eq_zero_of_le h, List.replicate_zero, List.append_nil]

theorem padded_add (bytes : List UInt8) (m n : ℕ) :
    padded bytes (m + n) = padded bytes m ++ padded (bytes.drop m) n := by
  induction m generalizing bytes with
  | zero => simp [padded]
  | succ m ih =>
      rw [Nat.succ_add]
      cases bytes with
      | nil =>
          rw [padded_nil_succ, padded_nil_succ, ih, List.drop_nil, List.drop_nil, List.cons_append]
      | cons c rest =>
          rw [padded_cons_succ, padded_cons_succ, ih, List.drop_succ_cons, List.cons_append]

theorem mvbytes_eq (count : ℕ) (header exe cmd : List UInt8) :
    mvbytes count ⟨header, exe, cmd⟩ = ⟨header, exe.drop count, cmd ++ padded exe count⟩ := by
  induction count generalizing exe cmd with
  | zero => simp [mvbytes, padded]
  | succ count ih =>
      cases exe with
      | nil => simp [mvbytes, moveByte, ih, padded_nil_succ]
      | cons c rest => simp [mvbytes, moveByte, ih, padded_cons_succ]

theorem mvbytesLong_of_eq {z : Int} {count : ℕ} (h : z = count) (s : Streams) :
    mvbytesLong z s = some (mvbytes count s) := by
  rw [mvbytesLong, if_neg (by omega), h, Int.toNat_natCast]

/-! ## The far pointers -/

/-- A far pointer with its segment moved, unless it is the seventh. -/
def entry (glBase : UInt16) (n : ℕ) (exe : List UInt8) : List UInt8 :=
  let seg := peek16 exe 2 + if n = 6 then 0 else glBase
  exe.take 2 ++ [loByte seg, hiByte seg]

theorem fixup_eq (glBase : UInt16) (n : ℕ) (header : List UInt8) {exe : List UInt8}
    (hexe : 4 ≤ exe.length) (cmd : List UInt8) :
    ∃ header', fixup glBase ⟨header, exe, cmd⟩ n =
      ⟨header', exe.drop 4, cmd ++ entry glBase n exe⟩ := by
  obtain ⟨b₀, b₁, b₂, b₃, rest, rfl⟩ : ∃ b₀ b₁ b₂ b₃ rest, exe = b₀ :: b₁ :: b₂ :: b₃ :: rest := by
    match exe, hexe with
    | b₀ :: b₁ :: b₂ :: b₃ :: rest, _ => exact ⟨b₀, b₁, b₂, b₃, rest, rfl⟩
  have hpeek : peek16 (b₀ :: b₁ :: b₂ :: b₃ :: rest) 2 = word b₂ b₃ := rfl
  unfold fixup entry
  by_cases hn : n = 6
  · refine ⟨header, ?_⟩
    simp only [hn, if_true, hpeek, UInt16.add_zero, loByte_word, hiByte_word]
    rw [mvbytes_eq, padded_of_le hexe]
    rfl
  · refine ⟨b₂ :: b₃ :: header.drop 2, ?_⟩
    have hoffset : mvbytes 2 ⟨header, b₀ :: b₁ :: b₂ :: b₃ :: rest, cmd⟩ =
        ⟨header, b₂ :: b₃ :: rest, cmd ++ [b₀, b₁]⟩ := by
      rw [mvbytes_eq, padded_of_le (by simp)]
      rfl
    have hseg : peek16 (readWord ⟨header, b₂ :: b₃ :: rest, cmd ++ [b₀, b₁]⟩).header 0 =
        word b₂ b₃ := rfl
    simp only [hn, if_false, hpeek, hoffset, hseg]
    simp [readWord]

def table (glBase : UInt16) (exe : List UInt8) : ℕ → List UInt8
  | 0 => []
  | k + 1 => table glBase exe k ++ entry glBase k (exe.drop (4 * k))

theorem length_table (glBase : UInt16) {exe : List UInt8} {k : ℕ} (h : 4 * k ≤ exe.length) :
    (table glBase exe k).length = 4 * k := by
  induction k with
  | zero => rfl
  | succ k ih =>
      rw [table, List.length_append, ih (by omega), entry]
      simp only [List.length_append, List.length_take, List.length_drop, List.length_cons,
        List.length_nil]
      omega

theorem run_fixup (glBase : UInt16) (header : List UInt8) {exe : List UInt8} {k : ℕ}
    (hexe : 4 * k ≤ exe.length) (cmd : List UInt8) :
    ∃ header', run (fixup glBase) ⟨header, exe, cmd⟩ (List.range k) =
      ⟨header', exe.drop (4 * k), cmd ++ table glBase exe k⟩ := by
  induction k with
  | zero => exact ⟨header, by simp [run, table]⟩
  | succ k ih =>
      obtain ⟨header', hrun⟩ := ih (by omega)
      obtain ⟨header'', hfixup⟩ := fixup_eq glBase k header'
        (by rw [List.length_drop]; omega : 4 ≤ (exe.drop (4 * k)).length)
        (cmd ++ table glBase exe k)
      refine ⟨header'', ?_⟩
      rw [List.range_succ, run_concat, hrun, hfixup, List.drop_drop, table, List.append_assoc]
      rfl

theorem peek16_entry_offset (glBase : UInt16) (n : ℕ) {exe : List UInt8} (h : 2 ≤ exe.length) :
    peek16 (entry glBase n exe) 0 = peek16 exe 0 := by
  match exe, h with
  | b₀ :: b₁ :: rest, _ => rfl

theorem peek16_entry_segment (glBase : UInt16) (n : ℕ) {exe : List UInt8} (h : 2 ≤ exe.length) :
    peek16 (entry glBase n exe) 2 = peek16 exe 2 + if n = 6 then 0 else glBase := by
  match exe, h with
  | b₀ :: b₁ :: rest, _ => exact word_bytes _

theorem peek16_table (glBase : UInt16) {exe : List UInt8} {k n : ℕ} (hexe : 4 * k ≤ exe.length)
    (hn : n < k) :
    peek16 (table glBase exe k) (4 * n) = peek16 exe (4 * n) ∧
      peek16 (table glBase exe k) (4 * n + 2) =
        peek16 exe (4 * n + 2) + if n = 6 then 0 else glBase := by
  induction k with
  | zero => omega
  | succ k ih =>
      have hlength := length_table glBase (by omega : 4 * k ≤ exe.length)
      rw [table]
      by_cases hlast : n = k
      · have hentry : 2 ≤ (exe.drop (4 * k)).length := by
          rw [List.length_drop]
          omega
        rw [hlast, peek16_append_right _ _ (by omega : 4 * k = _ + 0),
          peek16_append_right _ _ (by omega : 4 * k + 2 = _ + 2),
          peek16_entry_offset glBase k hentry, peek16_entry_segment glBase k hentry, peek16_drop,
          peek16_drop]
        exact ⟨rfl, rfl⟩
      · rw [peek16_append_left _ (by omega), peek16_append_left _ (by omega)]
        exact ih (by omega) (by omega)

/-! ## The file -/

theorem padRecord_eq (pos : ℕ) (cmd : List UInt8) :
    padRecord pos cmd = cmd ++ List.replicate ((128 - pos % 128) % 128) 0 := by
  generalize hcount : (128 - pos % 128) % 128 = count
  induction count generalizing pos cmd with
  | zero =>
      rw [padRecord, if_pos (by omega), List.replicate_zero, List.append_nil]
  | succ count ih =>
      have hnext : ((pos : Int) + 1) = (pos + 1 : ℕ) := by omega
      rw [padRecord, if_neg (by omega), hnext, ih (pos + 1) _ (by omega), List.replicate_succ,
        List.append_assoc]
      rfl

/-- The data segment with its far pointers moved by the load address, except the
seventh. -/
structure Relocated (glBase : UInt16) (data data' : List UInt8) : Prop where
  length : data'.length = data.length
  outside : ∀ i, i < 40 ∨ 72 ≤ i → data'.getD i 0 = data.getD i 0
  offset : ∀ n < 8, peek16 data' (40 + 4 * n) = peek16 data (40 + 4 * n)
  segment : ∀ n < 8, peek16 data' (42 + 4 * n) =
    peek16 data (42 + 4 * n) + if n = 6 then 0 else glBase

theorem relocated_table (glBase : UInt16) {front exe back : List UInt8} (hfront : front.length = 40)
    (hexe : 32 ≤ exe.length) :
    Relocated glBase (front ++ (exe.take 32 ++ back)) (front ++ (table glBase exe 8 ++ back)) := by
  have hlength := length_table glBase (by omega : 4 * 8 ≤ exe.length)
  have htake : (exe.take 32).length = 32 := by
    rw [List.length_take]
    omega
  have hwithin : ∀ (mid : List UInt8), mid.length = 32 → ∀ a < 31,
      peek16 (front ++ (mid ++ back)) (40 + a) = peek16 mid a := by
    intro mid hmid a ha
    rw [peek16_append_right front _ (by omega : 40 + a = _ + a), peek16_append_left _ (by omega)]
  constructor
  · simp only [List.length_append]
    omega
  · intro i hi
    simp only [List.getD_eq_getElem?_getD]
    rcases hi with hlow | hhigh
    · rw [List.getElem?_append_left (by omega), List.getElem?_append_left (by omega)]
    · rw [List.getElem?_append_right (by omega), List.getElem?_append_right (by omega),
        List.getElem?_append_right (by omega), List.getElem?_append_right (by omega), hlength,
        htake]
  · intro n hn
    rw [hwithin _ (by omega) _ (by omega), hwithin _ htake _ (by omega), peek16_take _ (by omega)]
    exact (peek16_table glBase (by omega) hn).1
  · intro n hn
    rw [show 42 + 4 * n = 40 + (4 * n + 2) by omega, hwithin _ (by omega) _ (by omega),
      hwithin _ htake _ (by omega), peek16_take _ (by omega)]
    exact (peek16_table glBase (by omega) hn).2

/-- An EXE file that the program is meant for: it passes the two tests of the
header, has a code segment, leaves room for the data segment below the end of
memory and goes at least as far as the far pointers. -/
structure BdosImage (bytes : List UInt8) : Prop where
  paras : peek16 bytes 8 = 32
  relocation : peek16 bytes 32 ≤ 6
  code : 0 < (peek16 bytes 0x206).toNat
  top : (peek16 bytes 0x206).toNat + 0xF0 < 65536
  pointers : 0x200 + 16 * (peek16 bytes 0x206).toNat + 72 ≤ bytes.length

def groups (dseg : UInt16) : List UInt8 :=
  addgroup 1 dseg 0 dseg 0 ++ addgroup 2 dsParas 0 dsParas 0 ++ List.replicate 110 0

theorem length_groups (dseg : UInt16) : (groups dseg).length = 128 := by
  simp [groups, addgroup]

theorem headerWords_groups (dseg : UInt16) :
    HeaderWords (groups dseg) dseg.toNat dseg.toNat 240 240 0 0 := by
  constructor
  · exact congrArg UInt16.toNat (word_bytes dseg)
  · exact word_bytes 0
  · exact congrArg UInt16.toNat (word_bytes dseg)
  · exact congrArg UInt16.toNat (word_bytes dsParas)
  · exact word_bytes 0
  · exact congrArg UInt16.toNat (word_bytes dsParas)

def movedData (glBase : UInt16) (rest : List UInt8) : List UInt8 :=
  padded rest 40 ++ (table glBase (rest.drop 40) 8 ++ padded (rest.drop 72) 3768)

theorem relocated_movedData (glBase : UInt16) {rest : List UInt8} (h : 72 ≤ rest.length) :
    Relocated glBase (padded rest 3840) (movedData glBase rest) := by
  have hdrop : 32 ≤ (rest.drop 40).length := by
    rw [List.length_drop]
    omega
  have hsplit : padded rest 3840 =
      padded rest 40 ++ ((rest.drop 40).take 32 ++ padded (rest.drop 72) 3768) := by
    rw [show 3840 = 40 + (32 + 3768) from rfl, padded_add, padded_add, padded_of_le hdrop,
      List.drop_drop]
  rw [hsplit]
  exact relocated_table glBase (length_padded rest 40) hdrop

theorem mvbytes_code {bytes : List UInt8} {n : ℕ} (hbytes : 0x208 ≤ bytes.length) (hn : 8 ≤ n)
    (header front : List UInt8) :
    mvbytes (n - 8) ⟨header, bytes.drop 0x208, front ++ (bytes.take 0x208).drop 0x200⟩ =
      ⟨header, bytes.drop (0x200 + n), front ++ padded (bytes.drop 0x200) n⟩ := by
  have hfirst : (bytes.take 0x208).drop 0x200 ++ padded (bytes.drop 0x208) (n - 8) =
      padded (bytes.drop 0x200) n := by
    have hsplit := padded_add (bytes.drop 0x200) 8 (n - 8)
    rw [padded_of_le (by rw [List.length_drop]; omega : 8 ≤ (bytes.drop 0x200).length),
      List.drop_drop, show 8 + (n - 8) = n by omega] at hsplit
    rw [hsplit, List.drop_take]
  rw [mvbytes_eq, List.append_assoc, hfirst, List.drop_drop,
    show 0x208 + (n - 8) = 0x200 + n by omega]

theorem toNat_dstop {dseg : UInt16} (h : dseg.toNat + 0xF0 < 65536) :
    (dseg + dsParas).toNat = dseg.toNat + 240 := by
  rw [UInt16.toNat_add]
  show (dseg.toNat + 240) % 65536 = _
  omega

theorem copySegments_eq {bytes : List UInt8} (glBase : UInt16) {dseg : UInt16}
    (hcode : 0 < dseg.toNat) (htop : dseg.toNat + 0xF0 < 65536)
    (hpointers : 0x200 + 16 * dseg.toNat + 72 ≤ bytes.length) (header front : List UInt8) :
    ∃ s, copySegments glBase dseg (dseg + dsParas)
        ⟨header, bytes.drop 0x208, front ++ (bytes.take 0x208).drop 0x200⟩ = some s ∧
      s.cmd = front ++ (padded (bytes.drop 0x200) (16 * dseg.toNat) ++
        movedData glBase (bytes.drop (0x200 + 16 * dseg.toNat))) := by
  have hcodeMove := mvbytes_code (by omega : 0x208 ≤ bytes.length)
    (by omega : 8 ≤ 16 * dseg.toNat) header front
  generalize hrest : bytes.drop (0x200 + 16 * dseg.toNat) = rest at *
  have hrestLength : 4 * 8 ≤ (rest.drop 40).length := by
    rw [← hrest, List.length_drop, List.length_drop]
    omega
  obtain ⟨header', hfixups⟩ := run_fixup glBase header hrestLength
    (front ++ padded (bytes.drop 0x200) (16 * dseg.toNat) ++ padded rest 40)
  rw [copySegments,
    mvbytesLong_of_eq (by omega : 16 * (dseg.toNat : Int) - 8 = (16 * dseg.toNat - 8 : ℕ)),
    hcodeMove]
  simp only [Option.bind_eq_bind, Option.bind_some, mvbytes_eq, hfixups]
  rw [mvbytesLong_of_eq (by rw [toNat_dstop htop]; omega :
    16 * (((dseg + dsParas).toNat : Int) - dseg.toNat) - 72 = (3768 : ℕ)), mvbytes_eq]
  refine ⟨_, rfl, ?_⟩
  simp only [movedData, List.append_assoc, List.drop_drop]

def converted (glBase : UInt16) (bytes : List UInt8) (pad : ℕ) : List UInt8 :=
  groups (peek16 bytes 0x206) ++
    (padded (bytes.drop 0x200) (16 * (peek16 bytes 0x206).toNat) ++
      (movedData glBase (bytes.drop (0x200 + 16 * (peek16 bytes 0x206).toNat)) ++
        List.replicate pad 0))

section Convert

variable {t : Target} {bytes : List UInt8} (glBase : UInt16) (hbdos : BdosImage bytes)
include hbdos

theorem length_converted (pad : ℕ) :
    (converted glBase bytes pad).length = 3968 + 16 * (peek16 bytes 0x206).toNat + pad := by
  have hpointers := hbdos.pointers
  have hdata := (relocated_movedData glBase (by rw [List.length_drop]; omega :
    72 ≤ (bytes.drop (0x200 + 16 * (peek16 bytes 0x206).toNat)).length)).length
  rw [length_padded] at hdata
  simp only [converted, List.length_append, length_groups, length_padded, hdata,
    List.length_replicate]
  omega

theorem exe2cmd_eq (hopens : t.opens = true)
    (hroom : 4096 + 16 * (peek16 bytes 0x206).toNat ≤ t.room) :
    ∃ pad, (converted glBase bytes pad).length % 128 = 0 ∧
      exe2cmd t glBase (some bytes) = some (0, some (converted glBase bytes pad)) := by
  have hpointers := hbdos.pointers
  have hheader : (bytes.take 0x208).length = 0x208 := by
    rw [List.length_take]
    omega
  have hpeek : ∀ a < 0x207, peek16 (bytes.take 0x208) a = peek16 bytes a :=
    fun a ha => peek16_take bytes (by omega)
  have hchecks : ¬ ((bytes.take 0x208).length < 0x208 ∨ peek16 (bytes.take 0x208) 8 ≠ 32 ∨
      6 < peek16 (bytes.take 0x208) 32) := by
    rw [hheader, hpeek 8 (by omega), hpeek 32 (by omega), hbdos.paras]
    simp [UInt16.not_lt.mpr hbdos.relocation]
  have hdiff : peek16 bytes 0x206 + dsParas - peek16 bytes 0x206 = dsParas := by
    rw [UInt16.add_comm]
    exact UInt16.add_sub_cancel dsParas _
  have hgroups : addgroup 1 (peek16 bytes 0x206) 0 (peek16 bytes 0x206) 0 ++
      addgroup 2 dsParas 0 dsParas 0 ++ List.replicate 110 0 = groups (peek16 bytes 0x206) := rfl
  have hlength := length_groups (peek16 bytes 0x206)
  obtain ⟨s, hsegments, hs⟩ := copySegments_eq glBase hbdos.code hbdos.top hpointers
    (bytes.take 0x208) (groups (peek16 bytes 0x206))
  -- `ftell` is where the data segment ends
  have hbare : s.cmd = converted glBase bytes 0 := by
    rw [hs, converted, List.replicate_zero, List.append_nil]
  have hbareLength := length_converted glBase hbdos 0
  have htell : t.ftell s.cmd = s.cmd.length := by
    rw [Target.ftell, if_pos (by rw [hbare]; omega)]
  generalize hpad : (128 - s.cmd.length % 128) % 128 = pad
  have hlengthPad := length_converted glBase hbdos pad
  have hfile : padRecord (t.ftell s.cmd) s.cmd = converted glBase bytes pad := by
    rw [htell, padRecord_eq, hpad, hs, converted]
    simp only [List.append_assoc]
  rw [hbare] at hpad
  refine ⟨pad, by omega, ?_⟩
  simp only [exe2cmd]
  rw [if_neg hchecks, hpeek 0x206 (by omega), hdiff, hgroups, if_neg (by simp [hopens]),
    items_of_room (by rw [List.length_nil]; omega), items_of_room (by omega),
    if_neg (Nat.lt_irrefl _), if_neg (Nat.lt_irrefl _), hsegments]
  simp only [Option.bind_eq_bind, Option.bind_some, hfile]
  rw [t.disk_of_le _ (by omega)]
  rfl

end Convert

/-- The CMD file that `exe2cmd` makes of such a file, if it all gets to the disk, is
complete, fills whole records and can be loaded: the code as it is, the data
relocated, and FF for what the EXE file does not reach. -/
theorem exe2cmd_loadable {t : Target} {bytes : List UInt8} (glBase : UInt16)
    (hbdos : BdosImage bytes) (hopens : t.opens = true)
    (hroom : 4096 + 16 * (peek16 bytes 0x206).toNat ≤ t.room) :
    ∃ file data, exe2cmd t glBase (some bytes) = some (0, some file) ∧ file.length % 128 = 0 ∧
      Loadable file ∧
      fileImage file = ⟨padded (bytes.drop 0x200) (16 * (peek16 bytes 0x206).toNat), data, 0, 0,
        16 * (peek16 bytes 0x206).toNat, 3840⟩ ∧
      Relocated glBase
        (padded (bytes.drop (0x200 + 16 * (peek16 bytes 0x206).toNat)) 3840) data := by
  have hpointers := hbdos.pointers
  obtain ⟨pad, hrecords, hfile⟩ := exe2cmd_eq glBase hbdos hopens hroom
  have hrelocated := relocated_movedData glBase (by rw [List.length_drop]; omega :
    72 ≤ (bytes.drop (0x200 + 16 * (peek16 bytes 0x206).toNat)).length)
  have hdataLength := hrelocated.length
  rw [length_padded] at hdataLength
  obtain ⟨hloadable, himage⟩ := loadable_of_layout (headerWords_groups (peek16 bytes 0x206))
    (length_groups _) (length_padded (bytes.drop 0x200) _) (hdataLength.trans (by decide))
    hbdos.code (by decide) (Nat.le_refl _) (Nat.le_refl _) (List.replicate pad 0)
  exact ⟨_, _, hfile, hrecords, hloadable, himage, hrelocated⟩

def smallExe : List UInt8 :=
  poke16 (poke16 (List.replicate (0x200 + 16 + 72) 0) 8 32) 0x206 1

theorem exe2cmd_loadable_smallExe :
    ∃ file data, exe2cmd (smallDisk 4112) 0x60 (some smallExe) = some (0, some file) ∧
      Loadable file ∧ fileImage file = ⟨padded (smallExe.drop 0x200) 16, data, 0, 0, 16, 3840⟩ := by
  have hparas : peek16 smallExe 8 = 32 := by decide +kernel
  have hcode : peek16 smallExe 0x206 = 1 := by decide +kernel
  have hbdos : BdosImage smallExe :=
    ⟨hparas, by decide +kernel, by rw [hcode]; decide, by rw [hcode]; decide,
      by rw [hcode]; decide +kernel⟩
  obtain ⟨file, data, hfile, -, hloadable, himage, -⟩ :=
    exe2cmd_loadable (t := smallDisk 4112) 0x60 hbdos rfl (by rw [hcode]; decide)
  rw [hcode] at himage
  exact ⟨file, data, hfile, hloadable, himage⟩

end Sotabots.Cmd
