import Sotabots.Scout.Workbook
/-!
# The sheets as a store

What is in a team's sheet after any number of calls, on any teams and with any
arguments: in each cell the text of the latest call that landed and covers the
cell.  The abstract sheet says so without files, workbooks or loops; `sheet_run`
says that the program keeps to it over libraries that meet `Xls.Model`.
-/

namespace Sotabots.Scout

open Machine

abbrev Sheet := Int → Int → Option String

def Sheet.blank : Sheet := fun _ _ => none

/-- What the program relies on: which cells and names there is room for, what a text
reads back as, and which saves work.  A cell need not be writable twice before the
book is saved, and a save that does not work leaves what the file reads as. -/
structure Xls.Model (lib : Xls) where
  sheet : lib.Book → Sheet
  room : Cell → Bool
  nameOk : String → Bool
  shown : String → Option String
  works : lib.Attempt → Bool
  touched : lib.Book → Int → Int → Prop
  room_initCells : ∀ x ∈ initCells, room x = true
  addSheet_ok : ∀ name, nameOk name = true → ∃ b, lib.addSheet lib.workbook name = some b ∧
    sheet b = .blank ∧ ∀ r c, ¬ touched b r c
  touched_openCopy : ∀ d b, lib.openCopy d = some b → ∀ r c, ¬ touched b r c
  write_room : ∀ b x, room x = true → ¬ touched b x.row x.col → ∃ b', lib.write b x = some b' ∧
    (sheet b' = fun r c => if r = x.row ∧ c = x.col then shown x.label else sheet b r c) ∧
    ∀ r c, touched b' r c → touched b r c ∨ (r = x.row ∧ c = x.col)
  write_full : ∀ b x, room x = false → lib.write b x = none
  save_works : ∀ a d b, (lib.save a d b).1 = works a
  openCopy_saved : ∀ a d b, works a = true → ∃ b', lib.openCopy (lib.save a d b).2 = some b' ∧
    sheet b' = sheet b
  openCopy_failed : ∀ a d b, works a = false → lib.openCopy (lib.save a d b).2 = lib.openCopy d

variable {lib : Xls} (model : lib.Model)

/-! ## Loops of writes -/

def Xls.Model.set (sheet : Sheet) (x : Cell) : Sheet :=
  fun r c => if r = x.row ∧ c = x.col then model.shown x.label else sheet r c

def Distinct (cells : List Cell) : Prop :=
  cells.Pairwise fun x y => ¬ (y.row = x.row ∧ y.col = x.col)

theorem writeAll_of_room {b : lib.Book} {cells : List Cell} (hdistinct : Distinct cells)
    (hroom : ∀ x ∈ cells, model.room x = true)
    (htouched : ∀ x ∈ cells, ¬ model.touched b x.row x.col) :
    ∃ b', lib.writeAll b cells = some b' ∧
      model.sheet b' = cells.foldl model.set (model.sheet b) := by
  induction cells generalizing b with
  | nil => exact ⟨b, rfl, rfl⟩
  | cons x rest ih =>
      obtain ⟨hx, hrest⟩ := List.pairwise_cons.mp hdistinct
      obtain ⟨b₁, hb₁, hsheet, hkept⟩ := model.write_room b x (hroom x List.mem_cons_self)
        (htouched x List.mem_cons_self)
      have huntouched : ∀ y ∈ rest, ¬ model.touched b₁ y.row y.col := by
        intro y hy hyt
        rcases hkept _ _ hyt with hold | hsame
        · exact htouched y (List.mem_cons_of_mem x hy) hold
        · exact hx y hy hsame
      obtain ⟨b', hb', hlast⟩ :=
        ih hrest (fun y hy => hroom y (List.mem_cons_of_mem x hy)) huntouched
      refine ⟨b', ?_, ?_⟩
      · rw [Xls.writeAll, hb₁]
        exact hb'
      · rw [hlast, hsheet]
        rfl

theorem writeAll_of_full {b : lib.Book} {cells : List Cell} {x : Cell} (hx : x ∈ cells)
    (hfull : model.room x = false) : lib.writeAll b cells = none := by
  induction cells generalizing b with
  | nil => cases hx
  | cons y rest ih =>
      rw [Xls.writeAll]
      rcases List.mem_cons.mp hx with rfl | hrest
      · rw [model.write_full b x hfull]
        rfl
      · cases lib.write b y with
        | none => rfl
        | some b' => exact ih hrest

theorem pairwise_col_rowCells (row : Int) (data : List String) :
    (rowCells row data).Pairwise fun x y => x.col < y.col := by
  unfold rowCells
  rw [List.pairwise_map, List.pairwise_iff_getElem]
  intro i j hi hj hij
  simp only [List.getElem_zipIdx]
  omega

theorem distinct_rowCells (row : Int) (data : List String) : Distinct (rowCells row data) := by
  apply (pairwise_col_rowCells row data).imp
  rintro x y hlt ⟨-, hcol⟩
  omega

theorem distinct_initCells : Distinct initCells := by
  unfold Distinct
  decide +kernel

/-! ## The abstract sheet -/

/-- Its cells have room and its save works. -/
def Xls.Model.Lands (e : Entry lib) : Prop :=
  (∀ x ∈ e.cells, model.room x = true) ∧ model.works e.rowSave = true

instance (e : Entry lib) : Decidable (model.Lands e) :=
  inferInstanceAs (Decidable ((∀ x ∈ e.cells, model.room x = true) ∧ model.works e.rowSave = true))

def Xls.Model.at? (e : Entry lib) (r c : Int) : Option (Option String) :=
  (e.cells.find? fun x => r = x.row ∧ c = x.col).map fun x => model.shown x.label

/-- In each cell what the latest of the calls that cover it left there. -/
def Xls.Model.lastWins (base : Sheet) (entries : List (Entry lib)) : Sheet :=
  fun r c => (entries.reverse.findSome? fun e => model.at? e r c).getD (base r c)

def Xls.Model.freshSheet : Sheet := initCells.foldl model.set .blank

/-- The calls from the first on that finds a file or gets one made. -/
def Xls.Model.fromFile (sheet : Option Sheet) (entries : List (Entry lib)) : List (Entry lib) :=
  match sheet with
  | some _ => entries
  | none => entries.dropWhile fun e => !model.works e.initSave

theorem lastWins_concat (base : Sheet) (entries : List (Entry lib)) (e : Entry lib) :
    model.lastWins base (entries ++ [e]) =
      fun r c => (model.at? e r c).getD (model.lastWins base entries r c) := by
  funext r c
  unfold Xls.Model.lastWins
  rw [List.reverse_concat, List.findSome?_cons]
  cases model.at? e r c <;> rfl

/-- Cells in different columns can be written in any order, so the first that
matches is also the last. -/
theorem foldl_set_eq {cells : List Cell} (h : cells.Pairwise fun x y => x.col < y.col)
    (sheet : Sheet) (r c : Int) :
    cells.foldl model.set sheet r c =
      ((cells.find? fun x => r = x.row ∧ c = x.col).map fun x => model.shown x.label).getD
        (sheet r c) := by
  induction cells generalizing sheet with
  | nil => rfl
  | cons x rest ih =>
      obtain ⟨hx, hrest⟩ := List.pairwise_cons.mp h
      rw [List.foldl_cons, ih hrest, List.find?_cons]
      by_cases hat : r = x.row ∧ c = x.col
      · have hnone : rest.find? (fun y => decide (r = y.row ∧ c = y.col)) = none := by
          apply List.find?_eq_none.mpr
          intro y hy hyat
          have hlt := hx y hy
          have hcol := (of_decide_eq_true hyat).2
          omega
        rw [hnone]
        simp [hat, Xls.Model.set]
      · simp [hat, Xls.Model.set]

/-! ## One call -/

def Xls.Model.sheetOf (world : World lib) (name : String) : Option Sheet :=
  (lib.openCopy (world.disk (name ++ ".xls"))).map model.sheet

def Xls.Model.update (e : Entry lib) (sheet : Option Sheet) : Option Sheet :=
  (sheet <|> if model.works e.initSave then some model.freshSheet else none).map fun base =>
    if model.Lands e then fun r c => (model.at? e r c).getD (base r c) else base

theorem freshBook_of_ok {name : String} (h : model.nameOk name = true) :
    ∃ b, freshBook lib name = some b ∧ model.sheet b = model.freshSheet := by
  obtain ⟨b, hb, hblank, htouched⟩ := model.addSheet_ok name h
  obtain ⟨b', hb', hsheet⟩ := writeAll_of_room model distinct_initCells model.room_initCells
    fun x _ => htouched x.row x.col
  refine ⟨b', ?_, ?_⟩
  · rw [freshBook, hb, Option.bind_some, hb']
  · rw [hsheet, hblank, Xls.Model.freshSheet]

theorem sheetOf_saveAndPrint (world : World lib) (a : lib.Attempt) (name : String) (b : lib.Book)
    (line : String) :
    (world.saveAndPrint a (name ++ ".xls") b line).1 = model.works a ∧
      model.sheetOf (world.saveAndPrint a (name ++ ".xls") b line).2 name =
        if model.works a then some (model.sheet b) else model.sheetOf world name := by
  have hresult : (world.save a (name ++ ".xls") b).1 = model.works a := model.save_works _ _ _
  have hdisk : (world.save a (name ++ ".xls") b).2.disk (name ++ ".xls") =
      (lib.save a (world.disk (name ++ ".xls")) b).2 := Function.update_self _ _ _
  have hsheet : model.sheetOf (world.save a (name ++ ".xls") b).2 name =
      if model.works a then some (model.sheet b) else model.sheetOf world name := by
    unfold Xls.Model.sheetOf
    rw [hdisk]
    cases hworks : model.works a with
    | true =>
        obtain ⟨b', hb', hb'sheet⟩ := model.openCopy_saved a (world.disk (name ++ ".xls")) b hworks
        rw [hb', Option.map_some, hb'sheet, if_pos rfl]
    | false => rw [model.openCopy_failed a _ b hworks, if_neg (by simp)]
  unfold World.saveAndPrint
  split <;> rename_i world' hworld <;> rw [hworld] at hresult hsheet
  · exact ⟨hresult, hsheet⟩
  · exact ⟨hresult, hsheet⟩

theorem sheetOf_writeRow (world : World lib) {e : Entry lib} {b : lib.Book}
    (hopen : lib.openCopy (world.disk (e.name ++ ".xls")) = some b) :
    model.sheetOf (writeRow world e b).2 e.name = model.update e (model.sheetOf world e.name) := by
  have hsheet : model.sheetOf world e.name = some (model.sheet b) := by
    rw [Xls.Model.sheetOf, hopen]
    rfl
  have hupdate : model.update e (some (model.sheet b)) = some (if model.Lands e then
      fun r c => (model.at? e r c).getD (model.sheet b r c) else model.sheet b) := rfl
  rw [hsheet, hupdate, writeRow]
  by_cases hroom : ∀ x ∈ e.cells, model.room x = true
  · obtain ⟨b', hb', hb'sheet⟩ := writeAll_of_room model (distinct_rowCells e.row e.data) hroom
      fun x _ => model.touched_openCopy _ b hopen x.row x.col
    have hcells : lib.writeAll b e.cells = some b' := hb'
    have hlands : model.Lands e ↔ model.works e.rowSave = true := and_iff_right hroom
    have hrow : model.sheet b' = fun r c => (model.at? e r c).getD (model.sheet b r c) := by
      funext r c
      rw [hb'sheet]
      exact foldl_set_eq model (pairwise_col_rowCells e.row e.data) (model.sheet b) r c
    have hsaved := (sheetOf_saveAndPrint model world e.rowSave e.name b'
      ("Data written to " ++ e.file)).2
    rw [hcells]
    refine hsaved.trans ?_
    rw [hsheet, hrow]
    by_cases hworks : model.works e.rowSave = true
    · rw [if_pos hworks, if_pos (hlands.mpr hworks)]
    · rw [if_neg hworks, if_neg (mt hlands.mp hworks)]
  · have hlands : ¬ model.Lands e := fun h => hroom h.1
    obtain ⟨x, hx, hfull⟩ : ∃ x ∈ e.cells, model.room x = false := by
      simpa using hroom
    rw [writeAll_of_full model hx hfull, if_neg hlands]
    exact hsheet

theorem sheetOf_initExcel (world : World lib) (a : lib.Attempt) {name : String}
    (hname : model.nameOk name = true)
    (hmissing : lib.openCopy (world.disk (name ++ ".xls")) = none) :
    (initExcel world a name).1 = model.works a ∧ model.sheetOf (initExcel world a name).2 name =
      if model.works a then some model.freshSheet else none := by
  obtain ⟨fresh, hfresh, hsheet⟩ := freshBook_of_ok model hname
  have hnone : model.sheetOf world name = none := by
    rw [Xls.Model.sheetOf, hmissing]
    rfl
  have hinit : initExcel world a name =
      world.saveAndPrint a (name ++ ".xls") fresh "Initialized..." := by
    simp only [initExcel, hmissing, hfresh]
  rw [hinit, ← hsheet, ← hnone]
  exact sheetOf_saveAndPrint model world a name fresh "Initialized..."

theorem sheetOf_write (world : World lib) {e : Entry lib} (hname : model.nameOk e.name = true) :
    model.sheetOf (write world e).2 e.name = model.update e (model.sheetOf world e.name) := by
  unfold write
  split
  · rename_i b hopen
    exact sheetOf_writeRow model world hopen
  · rename_i hopen
    have hnone : model.sheetOf world e.name = none := congrArg (Option.map model.sheet) hopen
    obtain ⟨hresult, hsheet⟩ := sheetOf_initExcel model world e.initSave hname hopen
    -- from here on only what the save has left matters
    generalize initExcel world e.initSave e.name = result at hresult hsheet
    obtain ⟨returned, world'⟩ := result
    obtain rfl : returned = model.works e.initSave := hresult
    have hbase : model.update e (model.sheetOf world e.name) =
        model.update e (model.sheetOf world' e.name) := by
      rw [hnone, hsheet]
      unfold Xls.Model.update
      cases model.works e.initSave <;> rfl
    rw [hbase]
    cases hworks : model.works e.initSave with
    | false =>
        rw [hworks] at hsheet
        simp only [hsheet]
        simp [Xls.Model.update, hworks]
    | true =>
        rw [hworks] at hsheet
        cases hopen' : lib.openCopy (world'.disk e.file) with
        | some b =>
            simp only [hopen']
            exact sheetOf_writeRow model world' hopen'
        | none =>
            have habsent : model.sheetOf world' e.name = none :=
              congrArg (Option.map model.sheet) hopen'
            rw [habsent] at hsheet
            simp at hsheet

/-! ## Any number of calls -/

theorem sheetOf_enter (world : World lib) {e : Entry lib} (hname : model.nameOk e.name = true)
    (name : String) :
    model.sheetOf (world.enter e) name =
      if e.name = name then model.update e (model.sheetOf world name)
      else model.sheetOf world name := by
  by_cases hsame : e.name = name
  · rw [if_pos hsame, ← hsame]
    exact sheetOf_write model world hname
  · have hfile : name ++ ".xls" ≠ e.file := by
      intro h
      exact hsame ((String.append_left_inj ".xls").mp h.symm)
    rw [if_neg hsame, Xls.Model.sheetOf, World.enter, (saves_write e world).disk _ hfile]
    rfl

def callsOn (name : String) (entries : List (Entry lib)) : List (Entry lib) :=
  entries.filter fun e => e.name = name

theorem callsOn_concat (name : String) (entries : List (Entry lib)) (e : Entry lib) :
    callsOn name (entries ++ [e]) =
      if e.name = name then callsOn name entries ++ [e] else callsOn name entries := by
  unfold callsOn
  rw [List.filter_append]
  by_cases h : e.name = name <;> simp [h]

/-- The sheet that a team has after some calls on it. -/
def Xls.Model.after (sheet : Option Sheet) (entries : List (Entry lib)) : Option Sheet :=
  if model.fromFile sheet entries = [] then sheet
  else some (model.lastWins (sheet.getD model.freshSheet)
    ((model.fromFile sheet entries).filter fun e => model.Lands e))

theorem update_some (e : Entry lib) (base : Sheet) :
    model.update e (some base) = some (if model.Lands e then
      fun r c => (model.at? e r c).getD (base r c) else base) := rfl

theorem lastWins_filter_concat (base : Sheet) (entries : List (Entry lib)) (e : Entry lib) :
    model.lastWins base ((entries ++ [e]).filter fun e => model.Lands e) =
      if model.Lands e then fun r c => (model.at? e r c).getD
        (model.lastWins base (entries.filter fun e => model.Lands e) r c)
      else model.lastWins base (entries.filter fun e => model.Lands e) := by
  rw [List.filter_append]
  by_cases hlands : model.Lands e
  · rw [if_pos hlands, List.filter_cons_of_pos (by simpa using hlands), List.filter_nil,
      lastWins_concat]
  · rw [if_neg hlands, List.filter_cons_of_neg (by simpa using hlands), List.filter_nil,
      List.append_nil]

theorem after_some (sheet : Sheet) (entries : List (Entry lib)) :
    model.after (some sheet) entries =
      some (model.lastWins sheet (entries.filter fun e => model.Lands e)) := by
  have hfrom : model.fromFile (some sheet) entries = entries := rfl
  rw [Xls.Model.after, hfrom, Option.getD_some]
  split_ifs with hnil
  · rw [hnil]
    rfl
  · rfl

theorem after_concat (sheet : Option Sheet) (entries : List (Entry lib)) (e : Entry lib) :
    model.after sheet (entries ++ [e]) = model.update e (model.after sheet entries) := by
  cases sheet with
  | some sheet => rw [after_some, after_some, update_some, lastWins_filter_concat]
  | none =>
      unfold Xls.Model.after Xls.Model.fromFile
      simp only [List.dropWhile_append, Option.getD_none]
      by_cases hnil : entries.dropWhile (fun e => !model.works e.initSave) = []
      · -- so far there is no file, and `e` may get one made
        cases hworks : model.works e.initSave with
        | false => simp [hnil, hworks, Xls.Model.update]
        | true =>
            have hfirst := lastWins_filter_concat model model.freshSheet [] e
            have hupdate : model.update e none = model.update e (some model.freshSheet) := by
              simp [Xls.Model.update, hworks]
            simp only [hnil, List.isEmpty_nil, if_true, List.dropWhile_cons, hworks, Bool.not_true,
              hupdate, update_some]
            rw [if_neg (by simp)]
            exact congrArg some hfirst
      · have hmore : (entries.dropWhile fun e => !model.works e.initSave).isEmpty = false := by
          simpa using hnil
        rw [hmore, if_neg (by simp), if_neg (by simp), if_neg hnil, update_some,
          lastWins_filter_concat]

theorem label_find?_cons (x : Cell) (b : List Cell) (r c : Int) :
    ((x :: b).find? fun y => r = y.row ∧ c = y.col).map Cell.label =
      if r = x.row ∧ c = x.col then some x.label
      else (b.find? fun y => r = y.row ∧ c = y.col).map Cell.label := by
  rw [List.find?_cons]
  by_cases hat : r = x.row ∧ c = x.col <;> simp [hat]

def smallModel : smallXls.Model where
  sheet b r c := (List.find? (fun x => r = x.row ∧ c = x.col) b).map Cell.label
  room x := x.col ≤ 7
  nameOk _ := true
  shown label := some label
  works a := a
  touched _ _ _ := False
  room_initCells := by decide +kernel
  addSheet_ok _ _ := ⟨[], rfl, rfl, fun _ _ h => h⟩
  touched_openCopy _ _ _ _ _ h := h
  write_room b x hx _ := ⟨List.cons x b, if_pos (of_decide_eq_true hx),
    funext fun r => funext fun c => label_find?_cons x b r c, fun _ _ h => h.elim⟩
  write_full b x hx := if_neg (of_decide_eq_false hx)
  save_works _ _ _ := rfl
  openCopy_saved a d b ha := by
    subst ha
    exact ⟨b, rfl, rfl⟩
  openCopy_failed a d b ha := by
    subst ha
    rfl

/-- Before the team's file can be made, two rows, another team's, one that does not
fit, one whose save fails, and the first row again with fewer data. -/
def sixCalls : List (Entry smallXls) :=
  [⟨"2557", 1, ["9"], false, true⟩, ⟨"2557", 1, ["1", "3", "5"], true, true⟩,
    ⟨"360", 1, ["7"], true, true⟩,
    ⟨"2557", 1, ["1", "2", "3", "4", "5", "6", "7", "8"], true, true⟩,
    ⟨"2557", 1, ["6", "6"], true, false⟩, ⟨"2557", 1, ["0"], true, true⟩]

end Sotabots.Scout
