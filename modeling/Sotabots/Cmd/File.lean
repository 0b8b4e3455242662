import Sotabots.Machine.Words
/-!
# CMD files

`cmdio.c` reads and writes executables of two segments: a header of 128 bytes, the
code and the data, all in paragraphs of 16 bytes.  What the C code must not do is
part of the model: a copy past the end of a block and a read past its end are
faults, and so is any use of a null pointer.

All of it, and the two programs built on it, is read with an `int` and a `size_t` of
at least 32 bits.  With fewer, as under the compiler of the makefile, `malloc` would
not get the sizes that are computed here.
-/

namespace Sotabots.Cmd

open Machine

/-! ## Memory -/

inductive Fault
  | overflow | overread | nullPointer
  deriving DecidableEq, Repr

inductive Segment
  | code | data
  deriving DecidableEq, Repr

/-- What `malloc` gives for the blocks of a `cmd_desc`: nothing, or a block of the
size asked for with arbitrary contents. -/
structure Heap where
  malloc : Segment → ℕ → Option (List UInt8)
  length_malloc : ∀ seg n block, malloc seg n = some block → block.length = n

def peekw (base : List UInt8) (a : ℕ) : UInt16 := peek16 base a

/-- The address is a `word`. -/
def pokew (base : List UInt8) (a : ℕ) (v : UInt16) : Except Fault (List UInt8) :=
  if a % 65536 + 1 < base.length then .ok (poke16 base (a % 65536) v) else .error .overflow

def memcpy (base : List UInt8) (o : ℕ) (block : Option (List UInt8)) (n : ℕ) :
    Except Fault (List UInt8) :=
  match block with
  | none => if n = 0 then .ok base else .error .nullPointer
  | some block =>
      if block.length < n then .error .overread
      else if base.length < o + n then .error .overflow
      else .ok (base.take o ++ block.take n ++ base.drop (o + n))

/-! ## Descriptors -/

/-- `cmd_desc`; a pointer is null or a block. -/
structure CmdDesc where
  cs : Option (List UInt8)
  ds : Option (List UInt8)
  csBase : UInt16
  dsBase : UInt16
  csLen : ℕ
  dsLen : ℕ
  csMax : ℕ
  dsMax : ℕ
  deriving DecidableEq, Repr

def zeroCmd : CmdDesc := ⟨none, none, 0, 0, 0, 0, 0, 0⟩

def allocCmd (heap : Heap) (cmd : CmdDesc) (csLen dsLen : ℕ) : Option String × CmdDesc :=
  if csLen = 0 ∨ dsLen = 0 then (some "cs_len or ds_len is 0.", cmd)
  else
    match heap.malloc .code csLen, heap.malloc .data dsLen with
    | some cs, some ds => (none, { cmd with cs := some cs, ds := some ds })
    | _, _ => (some "Out of memory.", zeroCmd)

/-! ## Reading -/

structure Fread where
  items : ℕ
  block : List UInt8
  rest : List UInt8

def fread (block : Option (List UInt8)) (count : ℕ) (rest : List UInt8) : Except Fault Fread :=
  match block with
  | none => .error .nullPointer
  | some block =>
      if block.length < (rest.take (16 * count)).length then .error .overflow
      else .ok
        { items := (rest.take (16 * count)).length / 16
          block := rest.take (16 * count) ++ block.drop (rest.take (16 * count)).length
          rest := rest.drop (16 * count) }

def CmdDesc.readHeader (cmd : CmdDesc) (header : List UInt8) : CmdDesc :=
  { cmd with
    csLen := (peekw header 1).toNat
    csBase := peekw header 3
    csMax := (peekw header 5).toNat
    dsLen := (peekw header 10).toNat
    dsBase := peekw header 12
    dsMax := (peekw header 14).toNat }

def readSegments (cmd : CmdDesc) (rest : List UInt8) :
    Except Fault (Option String × CmdDesc) := do
  let code ← fread cmd.cs cmd.csLen rest
  if code.items < cmd.csLen then
    return (some "Failed to load code segment.", zeroCmd)
  let data ← fread cmd.ds cmd.dsLen code.rest
  if data.items < cmd.dsLen then
    return (some "Failed to load data segment.", zeroCmd)
  return (none,
    { cmd with
      cs := some code.block
      ds := some data.block
      csLen := cmd.csLen * 16
      dsLen := cmd.dsLen * 16
      csMax := cmd.csMax * 16
      dsMax := cmd.dsMax * 16 })

def loadCmd (heap : Heap) (file : Option (List UInt8)) (cmd : CmdDesc) :
    Except Fault (Option String × CmdDesc) :=
  match file with
  | none => .ok (some "Failed to open file.", cmd)
  | some bytes =>
      if bytes.length < 128 then .ok (some "Too short to be a CMD file.", cmd)
      else
        let cmd := cmd.readHeader (bytes.take 128)
        if cmd.csLen = 0 ∨ cmd.dsLen = 0 then .ok (some "Not a 2-segment CMD file", cmd)
        else
          let alloc := allocCmd heap cmd (16 * cmd.csMax) (16 * cmd.dsMax)
          if alloc.1.isSome then .ok alloc else readSegments alloc.2 (bytes.drop 128)

/-! ## Writing -/

/-- A file to be written, behind the buffer of the C library.  The first `room` bytes
get to the disk.  Once more have been handed over, calls may fail or not, `fclose`
among them, whose result is never looked at, and what is on the disk in the end is
known only as far as the room goes. -/
structure Target where
  opens : Bool
  room : ℕ
  /-- What `fwrite` returns past the room, for so many items after these bytes. -/
  reports : List UInt8 → ℕ → ℕ
  /-- What `ftell` returns past the room. -/
  tells : List UInt8 → Int
  /-- What is on the disk in the end. -/
  disk : List UInt8 → List UInt8
  disk_of_le : ∀ out, out.length ≤ room → disk out = out
  take_prefix_disk : ∀ out, out.take room <+: disk out

namespace Target

/-- What `fwrite` returns for `count` items of `size` bytes, after the bytes `out`. -/
def items (t : Target) (out : List UInt8) (size count : ℕ) : ℕ :=
  if out.length + size * count ≤ t.room then count else min count (t.reports out count)

def ftell (t : Target) (out : List UInt8) : Int :=
  if out.length ≤ t.room then out.length else t.tells out

end Target

/-- `fwrite(block, size, count, fp)`: the items reported, and all that has been handed
over. -/
def fwrite (t : Target) (out : List UInt8) (block : Option (List UInt8)) (size count : ℕ) :
    Except Fault (ℕ × List UInt8) :=
  match block with
  | none => if count = 0 then .ok (0, out) else .error .nullPointer
  | some block =>
      if block.length < size * count then .error .overread
      else .ok (t.items out size count, out ++ block.take (size * count))

def CmdDesc.header (cmd : CmdDesc) (absolute : Bool) : List UInt8 :=
  let header := (List.replicate 128 0).set 0 1
  let header := poke16 header 1 (UInt16.ofNat (cmd.csLen / 16))
  let header := if absolute then poke16 header 3 cmd.csBase else header
  let header := poke16 header 5 (UInt16.ofNat (cmd.csMax / 16))
  let header := header.set 9 2
  let header := poke16 header 10 (UInt16.ofNat (cmd.dsLen / 16))
  let header := if absolute then poke16 header 12 cmd.dsBase else header
  poke16 header 14 (UInt16.ofNat (cmd.dsMax / 16))

/-- The loop that packs the file out to a multiple of 128 bytes.  `dsparas` is a
`word`. -/
def packOut (csparas dsparas : UInt16) (out : List UInt8) : List UInt8 :=
  if (csparas.toNat + dsparas.toNat) % 8 = 0 then out
  else packOut csparas (dsparas + 1) (out ++ List.replicate 16 0)
termination_by (8 - (csparas.toNat + dsparas.toNat) % 8) % 8
decreasing_by
  have hadd : (dsparas + 1).toNat = (dsparas.toNat + 1) % 65536 := by simp [UInt16.toNat_add]
  omega

/-- `save_cmd`: the error, if any, and what is on the disk if the file was opened. -/
def saveCmd (t : Target) (cmd : CmdDesc) (absolute : Bool) :
    Except Fault (Option String × Option (List UInt8)) :=
  let csparas := UInt16.ofNat (cmd.csLen / 16)
  let dsparas := UInt16.ofNat (cmd.dsLen / 16)
  if t.opens = false then .ok (some "Cannot open file to write.", none)
  else do
    -- the three writes are the operands of one `||`
    let header ← fwrite t [] (some (cmd.header absolute)) 1 128
    if header.1 < 128 then
      return (some "Error writing to CMD file", some (t.disk header.2))
    let code ← fwrite t header.2 cmd.cs 16 csparas.toNat
    if code.1 < csparas.toNat then
      return (some "Error writing to CMD file", some (t.disk code.2))
    let data ← fwrite t code.2 cmd.ds 16 dsparas.toNat
    if data.1 < dsparas.toNat then
      return (some "Error writing to CMD file", some (t.disk data.2))
    -- neither the padding nor `fclose` is checked
    return (none, some (t.disk (packOut csparas dsparas data.2)))

end Sotabots.Cmd
