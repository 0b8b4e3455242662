import Sotabots.Machine.Trace
import Mathlib.Logic.Function.Basic
/-!
# The scouting sheets

`Scout.py` keeps one spreadsheet file for each team: `initExcel` makes it, with a
column of match numbers and a row of headings, and `write` puts the observations
of one match in a row.  Both work through spreadsheet libraries that are not part
of the program.  They are a parameter here: any of their calls may raise an
exception, a `save` too, and then the file may hold anything.
-/

namespace Sotabots.Scout

open Machine

structure Cell where
  row : Int
  col : Int
  label : String
  deriving DecidableEq, Repr

/-- The libraries as the program uses them; `none` and `false` stand for an
exception. -/
structure Xls where
  /-- What a file can hold. -/
  Data : Type
  Book : Type
  /-- `copy(open_workbook(file))` -/
  openCopy : Option Data → Option Book
  /-- `Workbook()` -/
  workbook : Book
  addSheet : Book → String → Option Book
  /-- `write` on the first sheet -/
  write : Book → Cell → Option Book
  /-- What decides how a call of `save` goes. -/
  Attempt : Type
  save : Attempt → Option Data → Book → Bool × Option Data

def inputs : List String :=
  ["Match", "Auto Hot", "Auto High", "Auto Low", "Auto Zone", "Tele Pass", "Tele Score",
    "Tele Truss"]

/-- The cells that `initExcel` writes: the match numbers down, the headings across. -/
def initCells : List Cell :=
  (List.range' 1 49).map (fun i => ⟨i, 0, toString i⟩) ++
    inputs.zipIdx.map fun (heading, n) => ⟨0, n, heading⟩

def rowCells (row : Int) (data : List String) : List Cell :=
  data.zipIdx.map fun (d, n) => ⟨row, n + 1, d⟩

/-- A call of `write`, with the texts of its data and how its saves go. -/
structure Entry (lib : Xls) where
  name : String
  row : Int
  data : List String
  initSave : lib.Attempt
  rowSave : lib.Attempt

def Entry.cells {lib : Xls} (e : Entry lib) : List Cell := rowCells e.row e.data

def Entry.file {lib : Xls} (e : Entry lib) : String := e.name ++ ".xls"

structure World (lib : Xls) where
  disk : String → Option lib.Data
  console : List String
  saved : List (String × lib.Book)

variable {lib : Xls}

def Xls.writeAll (lib : Xls) (b : lib.Book) : List Cell → Option lib.Book
  | [] => some b
  | x :: rest => (lib.write b x).bind fun b => lib.writeAll b rest

namespace World

def save (world : World lib) (a : lib.Attempt) (file : String) (b : lib.Book) :
    Bool × World lib :=
  let result := lib.save a (world.disk file) b
  (result.1, { world with
    disk := Function.update world.disk file result.2
    saved := world.saved ++ [(file, b)] })

def print (world : World lib) (line : String) : World lib :=
  { world with console := world.console ++ [line] }

end World

def freshBook (lib : Xls) (name : String) : Option lib.Book :=
  (lib.addSheet lib.workbook name).bind fun b => lib.writeAll b initCells

def World.saveAndPrint (world : World lib) (a : lib.Attempt) (file : String) (b : lib.Book)
    (line : String) : Bool × World lib :=
  match world.save a file b with
  | (true, world) => (true, world.print line)
  | (false, world) => (false, world)

def initExcel (world : World lib) (a : lib.Attempt) (name : String) : Bool × World lib :=
  match lib.openCopy (world.disk (name ++ ".xls")) with
  | some _ => (true, world.print "Initialized...")
  | none =>
      match freshBook lib name with
      | none => (false, world)
      | some b => world.saveAndPrint a (name ++ ".xls") b "Initialized..."

def writeRow (world : World lib) (e : Entry lib) (b : lib.Book) : Bool × World lib :=
  match lib.writeAll b e.cells with
  | none => (false, world)
  | some b => world.saveAndPrint e.rowSave e.file b ("Data written to " ++ e.file)

/-- `write`: a file that cannot be opened is taken for a missing one. -/
def write (world : World lib) (e : Entry lib) : Bool × World lib :=
  match lib.openCopy (world.disk e.file) with
  | some b => writeRow world e b
  | none =>
      match initExcel world e.initSave e.name with
      | (false, world) => (false, world)
      | (true, world) =>
          match lib.openCopy (world.disk e.file) with
          | some b => writeRow world e b
          | none => (false, world)

def World.enter (world : World lib) (e : Entry lib) : World lib := (write world e).2

/-! ## What is saved -/

/-- A save that a call may make: of a whole fresh book, or of an opened one with the
whole row of the call. -/
def Entry.MaySave (e : Entry lib) (saving : String × lib.Book) : Prop :=
  saving.1 = e.file ∧ (freshBook lib e.name = some saving.2 ∨
    ∃ d b, lib.openCopy d = some b ∧ lib.writeAll b e.cells = some saving.2)

/-- From `world` to `world'` by saves of the call `e`. -/
structure Saves (e : Entry lib) (world world' : World lib) : Prop where
  saved : ∃ new, world'.saved = world.saved ++ new ∧ ∀ saving ∈ new, e.MaySave saving
  disk : ∀ f, f ≠ e.file → world'.disk f = world.disk f
  untouched : world'.saved = world.saved → world'.disk = world.disk

theorem saves_refl (e : Entry lib) (world : World lib) : Saves e world world :=
  ⟨⟨[], by simp⟩, fun _ _ => rfl, fun _ => rfl⟩

theorem Saves.trans {e : Entry lib} {w₁ w₂ w₃ : World lib} (h : Saves e w₁ w₂)
    (h' : Saves e w₂ w₃) : Saves e w₁ w₃ := by
  obtain ⟨new, hnew, hmay⟩ := h.saved
  obtain ⟨new', hnew', hmay'⟩ := h'.saved
  refine ⟨⟨new ++ new', ?_, ?_⟩, ?_, ?_⟩
  · rw [hnew', hnew, List.append_assoc]
  · exact List.forall_mem_append.mpr ⟨hmay, hmay'⟩
  · intro f hf
    rw [h'.disk f hf, h.disk f hf]
  · intro hsaved
    have hnil : new ++ new' = [] := by
      rw [hnew', hnew, List.append_assoc] at hsaved
      simpa using hsaved
    obtain ⟨rfl, rfl⟩ := List.append_eq_nil_iff.mp hnil
    rw [h'.untouched (by simpa using hnew'), h.untouched (by simpa using hnew)]

theorem saves_print (e : Entry lib) (world : World lib) (line : String) :
    Saves e world (world.print line) :=
  ⟨⟨[], by simp [World.print]⟩, fun _ _ => rfl, fun _ => rfl⟩

theorem saves_saveAndPrint {e : Entry lib} {world : World lib} {a : lib.Attempt} {b : lib.Book}
    {line : String} (h : e.MaySave (e.file, b)) :
    Saves e world (world.saveAndPrint a e.file b line).2 := by
  have hsave : Saves e world (world.save a e.file b).2 := by
    refine ⟨⟨[(e.file, b)], rfl, by simpa using h⟩, ?_, ?_⟩
    · intro f hf
      exact Function.update_of_ne hf _ _
    · intro hsaved
      simp [World.save] at hsaved
  unfold World.saveAndPrint
  split
  · rename_i world' hworld
    rw [hworld] at hsave
    exact hsave.trans (saves_print e world' line)
  · rename_i world' hworld
    rwa [hworld] at hsave

theorem saves_writeRow {e : Entry lib} (world : World lib) {d : Option lib.Data} {b : lib.Book}
    (hopen : lib.openCopy d = some b) : Saves e world (writeRow world e b).2 := by
  unfold writeRow
  split
  · exact saves_refl e world
  · rename_i whole hwhole
    exact saves_saveAndPrint ⟨rfl, Or.inr ⟨d, b, hopen, hwhole⟩⟩

theorem saves_initExcel (e : Entry lib) (world : World lib) :
    Saves e world (initExcel world e.initSave e.name).2 := by
  unfold initExcel
  split
  · exact saves_print e world _
  · split
    · exact saves_refl e world
    · rename_i fresh hfresh
      exact saves_saveAndPrint (e := e) ⟨rfl, Or.inl hfresh⟩

theorem saves_write (e : Entry lib) (world : World lib) : Saves e world (write world e).2 := by
  have hinit := saves_initExcel e world
  unfold write
  split
  · rename_i b hopen
    exact saves_writeRow world hopen
  · split
    · rename_i world' hworld
      rwa [hworld] at hinit
    · rename_i world' hworld
      rw [hworld] at hinit
      split
      · rename_i b hopen
        exact hinit.trans (saves_writeRow world' hopen)
      · exact hinit

/-- A sheet of eight columns, kept as the list of the cells written, and saves that
leave the file alone if they fail. -/
def smallXls : Xls where
  Data := List Cell
  Book := List Cell
  openCopy d := d
  workbook := []
  addSheet b _ := some b
  write b x := if x.col ≤ 7 then some (x :: b) else none
  Attempt := Bool
  save works d b := (works, if works then some b else d)

def emptyDisk : World smallXls := ⟨fun _ => none, [], []⟩

/-- The second row breaks off at its eighth and last cell. -/
def twoRows : List (Entry smallXls) :=
  [⟨"2557", 1, ["1", "3", "5"], true, true⟩,
    ⟨"2557", 2, ["1", "2", "3", "4", "5", "6", "7", "8"], true, true⟩]

end Sotabots.Scout
