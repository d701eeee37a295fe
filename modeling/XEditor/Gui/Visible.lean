import XEditor.Gui.InputTarget

/-!
# Keys go to what is drawn

A printable key goes to the file name that is being renamed, to the search frame
or to the current file.  Whether these are drawn depends on other fields than
those that decide where the key goes.  This module says after which messages the
text that gets the next key is one that `draw_BufferManager` draws.
-/

namespace XEditor.Gui

open List Option Edit Kernel Run Text BufferManager

/-! ## The texts of the window -/

/-- The texts of the window. -/
inductive TextRef where
  | edit (ref : EditRef)
  | tabLabel (id : Nat)
  | toolLabel (i : Nat)
  | pinyin
  | status
  deriving DecidableEq, Repr

namespace BufferManager

/-- A text of the window. -/
def textAt (manager : BufferManager) : TextRef → Option Textframe
  | .edit ref => manager.textOf ref
  | .tabLabel id => manager.tabButtons[id]?.map (·.edit.text)
  | .toolLabel i => manager.toolBar.buttons[i]?.map (·.edit.text)
  | .pinyin => some manager.pinyin.edit.text
  | .status => some manager.statusBar.edit.text

/-- The texts that `draw_FileBuffer` and `draw_SearchFrame` draw in a bar. -/
def drawnInBar (fileSwitch : FileSwitchBar) : List TextRef :=
  match fileSwitch.current with
  | none => []
  | some id =>
    .edit (.file id) :: if fileSwitch.ifSearch = true then [.edit .search] else []

/-- The texts that `draw_BufferManager` draws, in its order. -/
def drawnTexts (manager : BufferManager) : List TextRef :=
  manager.fileList.files.map (fun id => .edit (.control id)) ++
    (manager.fileSwitch.buttons.take manager.fileSwitch.nFiles).filterMap (·.map .tabLabel) ++
    drawnInBar manager.fileSwitch ++
    (List.range manager.toolBar.buttons.length).map .toolLabel ++ [.pinyin, .status]

/-- With the pinyin input off, a printable key changes only texts that are
drawn. -/
def SeenOnly (table : PinyinTable) (manager : BufferManager) : Prop :=
  manager.pinyin.on = false → ∀ c outside next, 32 ≤ c → c ≤ 126 →
    handleKeyboardBufferManager table manager c outside = some next →
      ∀ ref, next.textAt ref ≠ manager.textAt ref → ref ∈ manager.drawnTexts

/-- The edit that a printable key goes to, with the pinyin input off. -/
def keyTarget (manager : BufferManager) : Option EditRef :=
  if manager.isRename = true ∧ manager.focus = some .fileList then
    manager.fileList.fileSelected.map .control
  else if manager.focus = some .fileSwitch then
    manager.fileSwitch.current.map (inputOf manager.fileSwitch.searchInput)
  else none

/-- The edit that a printable key goes to is drawn: a name that is being renamed
is in the list, and a search frame that gets the input is shown. -/
structure KeysSeen (manager : BufferManager) : Prop where
  renamed : manager.isRename = true → manager.focus = some .fileList →
    ∀ id ∈ manager.fileList.fileSelected, id ∈ manager.fileList.files
  searched : manager.focus = some .fileSwitch → manager.fileSwitch.current ≠ none →
    manager.fileSwitch.searchInput = true → manager.fileSwitch.ifSearch = true

end BufferManager

/-! ### What is drawn -/

variable {id : Nat} {tabs : List Nat}

section

variable {manager : BufferManager}

theorem control_mem_drawnTexts :
    .edit (.control id) ∈ manager.drawnTexts ↔ id ∈ manager.fileList.files := by
  simp only [drawnTexts, drawnInBar]
  cases manager.fileSwitch.current <;> cases manager.fileSwitch.ifSearch <;> simp

theorem search_mem_drawnTexts :
    .edit .search ∈ manager.drawnTexts ↔
      manager.fileSwitch.current ≠ none ∧ manager.fileSwitch.ifSearch = true := by
  simp only [drawnTexts, drawnInBar]
  cases manager.fileSwitch.current <;> cases manager.fileSwitch.ifSearch <;> simp

theorem file_mem_drawnTexts :
    .edit (.file id) ∈ manager.drawnTexts ↔ manager.fileSwitch.current = some id := by
  simp only [drawnTexts, drawnInBar]
  cases manager.fileSwitch.current <;> cases manager.fileSwitch.ifSearch <;> simp [eq_comm]

/-- The target of a key is drawn exactly under the two conditions. -/
theorem keysSeen_iff :
    manager.KeysSeen ↔ ∀ ref ∈ manager.keyTarget, .edit ref ∈ manager.drawnTexts := by
  rw [keyTarget]
  by_cases renames : manager.isRename = true ∧ manager.focus = some .fileList
  · rw [if_pos renames]
    constructor
    · intro seen ref isTarget
      obtain ⟨id, isSelected, rfl⟩ := map_eq_some_iff.mp isTarget
      exact control_mem_drawnTexts.mpr (seen.renamed renames.1 renames.2 id isSelected)
    · intro drawn
      refine ⟨fun _ _ id isSelected => ?_, fun inBar => ?_⟩
      · exact control_mem_drawnTexts.mp
          (drawn (.control id) (map_eq_some_iff.mpr ⟨id, isSelected, rfl⟩))
      · rw [renames.2] at inBar
        cases inBar
  · rw [if_neg renames]
    by_cases inBar : manager.focus = some .fileSwitch
    · rw [if_pos inBar]
      constructor
      · intro seen ref isTarget
        obtain ⟨id, isCurrent, rfl⟩ := map_eq_some_iff.mp isTarget
        rw [inputOf]
        split
        · rename_i input
          have isOpen : manager.fileSwitch.current ≠ none := by
            rw [isCurrent]
            exact some_ne_none id
          exact search_mem_drawnTexts.mpr ⟨isOpen, seen.searched inBar isOpen input⟩
        · exact file_mem_drawnTexts.mpr isCurrent
      · intro drawn
        refine ⟨fun isRename inList => absurd ⟨isRename, inList⟩ renames, ?_⟩
        intro _ isOpen input
        obtain ⟨id, isCurrent⟩ := ne_none_iff_exists'.mp isOpen
        have target := drawn (inputOf true id)
          (map_eq_some_iff.mpr ⟨id, isCurrent, by rw [input]⟩)
        exact (search_mem_drawnTexts.mp target).2
    · rw [if_neg inBar]
      refine iff_of_true ⟨fun isRename inList => absurd ⟨isRename, inList⟩ renames,
        fun isBar => absurd isBar inBar⟩ ?_
      rintro ref ⟨⟩

end

/-! ## A printable key -/

/-- What a printable key does to the edit that it goes to. -/
inductive Types (manager : BufferManager) (c : Int) : EditRef → BufferManager → Prop
  | control {id : Nat} {control : FileNameControl} {text : Textframe}
      (read : manager.controls[id]? = some control)
      (typed : typeByte control.edit.text (UInt8.ofNat c.toNat) = some text) :
      Types manager c (.control id)
        (manager.setControlEdit id control { control.edit with text := text })
  | search {edit : TextEdit} (typed : printableKey manager.fileSwitch.search.edit c = some edit) :
      Types manager c .search (manager.setSearchEdit edit)
  | file {id : Nat} {buffer : FileBuffer} {edit : TextEdit}
      (read : manager.buffers[id]? = some buffer)
      (typed : printableKey buffer.edit c = some edit) :
      Types manager c (.file id) (manager.setEdit id buffer edit)

section

variable {table : PinyinTable} {manager next : BufferManager} {c : Int} {outside : Outside}

theorem lineEditKey_printable (text : Textframe) (low : 32 ≤ c) (high : c ≤ 126) :
    lineEditKey text c = typeByte text (UInt8.ofNat c.toNat) := by
  have notSpecial : c ≠ leftArrow ∧ c ≠ backspace ∧ c ≠ rightArrow := by
    simp only [leftArrow, backspace, rightArrow]
    omega
  rw [lineEditKey, if_neg notSpecial.1, if_neg notSpecial.2.1, if_neg notSpecial.2.2,
    if_pos ⟨low, high⟩]

/-- A printable key in the list goes to the selected name. -/
theorem printable_in_list_iff (low : 32 ≤ c) (high : c ≤ 126) :
    handleKeyboardFileListBuffer manager c = some next ↔
      match manager.fileList.fileSelected with
      | none => next = manager
      | some id => Types manager c (.control id) next := by
  rw [handleKeyboardFileListBuffer]
  cases manager.fileList.fileSelected with
  | none => rw [some.injEq, eq_comm]
  | some id =>
    simp only [handleKeyboardFileNameControl, handleKeyboardLineEdit, bind_eq_bind]
    constructor
    · intro handled
      obtain ⟨control, read, edit, edited, handled⟩ := bind₂_eq_some_iff.mp handled
      rw [lineEditKey_printable _ low high] at edited
      obtain ⟨text, typed, rfl⟩ := map_eq_some_iff.mp edited
      cases handled
      exact .control read typed
    · rintro (⟨read, typed⟩ | _ | _)
      simp [read, lineEditKey_printable _ low high, typed]

/-- A printable key in the bar goes to the edit that gets the input. -/
theorem printable_in_bar_iff {faults : Nat → Option Nat} (low : 32 ≤ c) (high : c ≤ 126)
    (current : manager.fileSwitch.current = some id) :
    handleKeyboardFileSwitchBar manager c faults = some next ↔
      Types manager c (inputOf manager.fileSwitch.searchInput id) next := by
  rw [printable_in_edit low high current, inputOf]
  split
  · constructor
    · intro handled
      obtain ⟨edit, typed, rfl⟩ := map_eq_some_iff.mp handled
      exact .search typed
    · rintro (_ | ⟨typed⟩ | _)
      rw [typed]
      rfl
  · constructor
    · intro handled
      obtain ⟨buffer, read, handled⟩ := bind_eq_some_iff.mp handled
      obtain ⟨edit, typed, rfl⟩ := map_eq_some_iff.mp handled
      exact .file read typed
    · rintro (_ | _ | ⟨read, typed⟩)
      rw [read, bind_some, typed]
      rfl

/-- A printable key clears the status bar, and goes to its target. -/
theorem printable_key_iff (low : 32 ≤ c) (high : c ≤ 126) (off : manager.pinyin.on = false) :
    handleKeyboardBufferManager table manager c outside = some next ↔
      match manager.keyTarget with
      | none => next = manager.setStatus ""
      | some ref => Types (manager.setStatus "") c ref next := by
  have focus : (manager.setStatus "").focus = manager.focus := rfl
  have isRename : (manager.setStatus "").isRename = manager.isRename := rfl
  rw [printable_dispatch low off, dispatchKey, keyTarget, focus, isRename]
  by_cases renames : manager.isRename = true ∧ manager.focus = some .fileList
  · rw [if_pos renames, if_pos renames, printable_in_list_iff low high]
    have selected : (manager.setStatus "").fileList.fileSelected =
      manager.fileList.fileSelected := rfl
    rw [selected]
    cases manager.fileList.fileSelected <;> rfl
  · rw [if_neg renames, if_neg renames]
    by_cases inBar : manager.focus = some .fileSwitch
    · rw [if_pos inBar, if_pos inBar]
      cases current : manager.fileSwitch.current with
      | none =>
        have notSpecial : c ≠ tab ∧ c ≠ ctrlF := by
          simp only [tab, ctrlF]
          omega
        have noCurrent : (manager.setStatus "").fileSwitch.current = none := current
        rw [handleKeyboardFileSwitchBar, if_neg notSpecial.1, if_neg notSpecial.2, noCurrent]
        simp [eq_comm]
      | some id => exact printable_in_bar_iff low high current
    · have notDelete : c ≠ delete := by
        rw [delete]
        omega
      rw [if_neg inBar, if_neg inBar, if_neg notDelete, some.injEq]
      exact eq_comm

theorem textAt_setStatus (manager : BufferManager) (message : String) {ref : TextRef}
    (other : ref ≠ .status) : (manager.setStatus message).textAt ref = manager.textAt ref := by
  cases ref with
  | status => exact absurd rfl other
  | edit ref => cases ref <;> rfl
  | tabLabel | toolLabel | pinyin => rfl

variable {target : EditRef}

/-- Typing changes the text of the target only. -/
theorem Types.textAt_eq (types : Types manager c target next) {ref : TextRef}
    (other : ref ≠ .edit target) : next.textAt ref = manager.textAt ref := by
  cases ref with
  | edit ref =>
    have distinct : ref ≠ target := fun same => other (congrArg TextRef.edit same)
    cases types with
    | control read typed => exact (textOf_setControlEdit read _).2 ref distinct
    | search typed => exact (textOf_setSearchEdit manager _).2 ref distinct
    | file read typed => exact (textOf_setEdit read _).2 ref distinct
  | tabLabel | toolLabel | pinyin | status => cases types <;> rfl

/-- Where one printable key returns every other one does. -/
theorem Types.exists_other (types : Types manager c target next) (low : 32 ≤ c) (high : c ≤ 126)
    (d : Int) : ∃ otherNext, Types manager d target otherNext := by
  cases types with
  | control read typed =>
    obtain ⟨line, readLine, colLow, colHigh, -⟩ := typeByte_data (ofNat_ne_zero low high) typed
    obtain ⟨text, otherTyped⟩ := exists_typeByte readLine colLow colHigh (UInt8.ofNat d.toNat)
    exact ⟨_, .control read otherTyped⟩
  | search typed =>
    obtain ⟨edit, otherTyped⟩ := exists_printableKey low high typed d
    exact ⟨_, .search otherTyped⟩
  | file read typed =>
    obtain ⟨edit, otherTyped⟩ := exists_printableKey low high typed d
    exact ⟨_, .file read otherTyped⟩

/-- The letters `a` and `b` leave two texts. -/
theorem Types.textOf_ne {first second : BufferManager} (typesA : Types manager 97 target first)
    (typesB : Types manager 98 target second) : first.textOf target ≠ second.textOf target := by
  cases typesA with
  | control read typed =>
    cases typesB with
    | control otherRead otherTyped =>
      obtain rfl := some.inj (read.symm.trans otherRead)
      rw [(textOf_setControlEdit read _).1, (textOf_setControlEdit read _).1]
      intro same
      exact typeByte_ne (by decide) (by decide) (by decide) typed otherTyped (some.inj same)
  | search typed =>
    cases typesB with
    | search otherTyped =>
      intro same
      exact printableKey_ne (by decide) (by decide) (by decide) (by decide) (by decide) typed
        otherTyped (some.inj same)
  | file read typed =>
    cases typesB with
    | file otherRead otherTyped =>
      obtain rfl := some.inj (read.symm.trans otherRead)
      rw [(textOf_setEdit read _).1, (textOf_setEdit read _).1]
      intro same
      exact printableKey_ne (by decide) (by decide) (by decide) (by decide) (by decide) typed
        otherTyped (some.inj same)

/-- If the target of a key is drawn, a key changes drawn texts only. -/
theorem BufferManager.KeysSeen.seenOnly (seen : manager.KeysSeen) : manager.SeenOnly table := by
  intro off c outside next low high handled ref changed
  by_cases isStatus : ref = .status
  · simp [isStatus, drawnTexts]
  have cleared := textAt_setStatus manager "" isStatus
  have pressed := (printable_key_iff low high off).mp handled
  cases target : manager.keyTarget with
  | none =>
    rw [target] at pressed
    rw [pressed] at changed
    exact absurd cleared changed
  | some typed =>
    rw [target] at pressed
    by_cases isTarget : ref = .edit typed
    · rw [isTarget]
      exact keysSeen_iff.mp seen typed target
    · exact absurd ((pressed.textAt_eq isTarget).trans cleared) changed

/-- Otherwise one of two keys changes a text that is not drawn, if keys return. -/
theorem not_seenOnly (hidden : ¬ manager.KeysSeen) (off : manager.pinyin.on = false)
    (low : 32 ≤ c) (high : c ≤ 126)
    (handled : handleKeyboardBufferManager table manager c outside = some next) :
    ¬ manager.SeenOnly table := by
  intro seenOnly
  rw [keysSeen_iff] at hidden
  apply hidden
  intro ref isTarget
  have target : manager.keyTarget = some ref := isTarget
  have pressed := (printable_key_iff low high off).mp handled
  rw [target] at pressed
  have press (d : Int) (lowOther : 32 ≤ d) (highOther : d ≤ 126) {typed : BufferManager}
      (types : Types (manager.setStatus "") d ref typed)
      (changed : typed.textAt (.edit ref) ≠ manager.textAt (.edit ref)) :
      .edit ref ∈ manager.drawnTexts := by
    refine seenOnly off d outside typed lowOther highOther ?_ (.edit ref) changed
    rw [printable_key_iff lowOther highOther off, target]
    exact types
  obtain ⟨first, typesA⟩ := pressed.exists_other low high 97
  obtain ⟨second, typesB⟩ := pressed.exists_other low high 98
  by_cases unchanged : first.textAt (.edit ref) = manager.textAt (.edit ref)
  · refine press 98 (by decide) (by decide) typesB ?_
    intro alsoUnchanged
    exact typesA.textOf_ne typesB (unchanged.trans alsoUnchanged.symm)
  · exact press 97 (by decide) (by decide) typesA unchanged

end

/-! ## What the keys depend on -/

/-- A renaming goes on while the list has the focus and a name is selected. -/
def BufferManager.RenamesInList (manager : BufferManager) : Prop :=
  manager.isRename = true →
    manager.focus = some .fileList ∧ ∃ id, manager.fileList.fileSelected = some id

/-- Two states in which keys go to the same place. -/
structure SameKeys (manager next : BufferManager) : Prop where
  focus : next.focus = manager.focus
  fileList : next.fileList = manager.fileList
  isRename : next.isRename = manager.isRename
  current : next.fileSwitch.current = manager.fileSwitch.current
  searchInput : next.fileSwitch.searchInput = manager.fileSwitch.searchInput
  ifSearch : next.fileSwitch.ifSearch = manager.fileSwitch.ifSearch

namespace SameKeys

variable {first second third : BufferManager}

theorem trans (before : SameKeys first second) (after : SameKeys second third) :
    SameKeys first third where
  focus := after.focus.trans before.focus
  fileList := after.fileList.trans before.fileList
  isRename := after.isRename.trans before.isRename
  current := after.current.trans before.current
  searchInput := after.searchInput.trans before.searchInput
  ifSearch := after.ifSearch.trans before.ifSearch

theorem keysSeen (same : SameKeys first second) (seen : first.KeysSeen) : second.KeysSeen where
  renamed := by
    rw [same.isRename, same.focus, same.fileList]
    exact seen.renamed
  searched := by
    rw [same.focus, same.current, same.searchInput, same.ifSearch]
    exact seen.searched

theorem renamesInList (same : SameKeys first second) (renames : first.RenamesInList) :
    second.RenamesInList := by
  rw [RenamesInList, same.isRename, same.focus, same.fileList]
  exact renames

end SameKeys

section

variable {manager next : BufferManager}

theorem Change.sameKeys (change : Change manager next) : SameKeys manager next := by
  cases change <;> exact ⟨rfl, rfl, rfl, rfl, rfl, rfl⟩

theorem Edited.sameKeys (edited : Edited manager next) : SameKeys manager next := by
  induction edited with
  | refl => exact ⟨rfl, rfl, rfl, rfl, rfl, rfl⟩
  | tail _ change ih => exact ih.trans change.sameKeys

theorem Updated.notRenaming (updated : Updated manager next) (not : manager.isRename = false) :
    next.isRename = false := by
  induction updated with
  | refl => exact not
  | tail _ update ih =>
    cases update with
    | change change => exact change.sameKeys.isRename.trans ih
    | relist names => exact ih
    | endRename => rfl

theorem Updated.fileSelected (updated : Updated manager next) :
    next.fileList.fileSelected = manager.fileList.fileSelected := by
  induction updated with
  | refl => rfl
  | tail _ update ih =>
    cases update with
    | change change => exact (congrArg _ change.sameKeys.fileList).trans ih
    | relist names => exact ih
    | endRename => exact ih

/-- A list that is made again has new names only. -/
theorem updateFileList_new (updated : fileListBufferUpdateFileList manager = some next) :
    next.isRename = manager.isRename ∧
      ∀ id ∈ next.fileList.files, manager.controls.length ≤ id := by
  obtain ⟨kernel, names, rfl⟩ := updateFileList_eq updated
  refine ⟨rfl, ?_⟩
  intro id isFile
  obtain ⟨index, -, rfl⟩ := List.mem_map.mp isFile
  exact Nat.le_add_right _ _

end

/-! ## The mouse in the file switch bar -/

section

variable {manager next : BufferManager} {x y : Int} {mouseOpt : MouseOpt}

/-- What a mouse message to the bar leaves in place.  The search frame gets the
input only if it is shown. -/
structure BarSeen (manager next : BufferManager) : Prop where
  focus : next.focus = manager.focus
  fileList : next.fileList = manager.fileList
  isRename : next.isRename = manager.isRename
  searched : next.fileSwitch.searchInput = true → next.fileSwitch.ifSearch = true

theorem BarSeen.mouseFocus {first second : BufferManager} (seen : BarSeen first second)
    (ref : EditRef) (mouseOpt : MouseOpt) : BarSeen first (mouseFocus second ref mouseOpt) := by
  rw [Gui.mouseFocus]
  split
  · exact seen
  · exact ⟨seen.focus, seen.fileList, seen.isRename, seen.searched⟩

variable (noInput : manager.fileSwitch.searchInput = false)

include noInput

theorem BarSeen.refl : BarSeen manager manager :=
  ⟨rfl, rfl, rfl, fun input => by cases noInput.symm.trans input⟩

theorem belowTabs_seen
    (handled : handleMouseBelowTabs manager x y mouseOpt = some next) : BarSeen manager next := by
  rw [handleMouseBelowTabs] at handled
  split at handled
  · cases handled
    exact .refl noInput
  split at handled
  · rename_i isOver
    obtain ⟨edit, -, handled⟩ := bind_eq_some_iff.mp handled
    rw [some.injEq] at handled
    rw [overSearch, Bool.and_eq_true] at isOver
    have typed : BarSeen manager ({ manager with fileSwitch := { manager.fileSwitch with
      searchInput := true } }.setSearchEdit edit) := ⟨rfl, rfl, rfl, fun _ => isOver.1⟩
    exact handled ▸ typed.mouseFocus _ _
  · obtain ⟨buffer, -, handled⟩ := bind_eq_some_iff.mp handled
    split at handled
    · obtain ⟨edit, -, handled⟩ := bind_eq_some_iff.mp handled
      rw [some.injEq] at handled
      have typed (id : Nat) : BarSeen manager (manager.setEdit id buffer edit) :=
        ⟨rfl, rfl, rfl, (BarSeen.refl noInput).searched⟩
      exact handled ▸ (typed _).mouseFocus _ _
    · cases handled
      exact .refl noInput

theorem tabButton_seen {button : TabButton} (read : manager.tabButtons[id]? = some button)
    (handled : handleMouseTabButton manager id button mouseOpt = some next) :
    BarSeen manager next := by
  rw [handleMouseTabButton] at handled
  split_ifs at handled
  · rw [buttonExecSwitchToFile] at handled
    split at handled
    · cases handled
      exact .refl noInput
    · obtain ⟨file, -, handled⟩ := bind_eq_some_iff.mp handled
      cases handled
      exact ⟨rfl, rfl, rfl, (BarSeen.refl noInput).searched⟩
  · have closed := handleCloseButtonPast_eq ⟨none, none⟩ read handled
    unfold handleCloseButtonPast at closed
    split at closed
    · cases closed
      exact .refl noInput
    obtain ⟨_, -, file, -, closed⟩ := bind₂_eq_some_iff.mp closed
    obtain ⟨buffer, -, bar, isBar, closed⟩ := bind₂_eq_some_iff.mp closed
    cases closed
    have stillNoInput := (closeTabPast_sameBar isBar).searchInput.trans noInput
    exact ⟨rfl, rfl, rfl, fun input => by
      cases stillNoInput.symm.trans input⟩
  · cases handled
    exact .refl noInput

theorem bar_seen (handled : handleMouseFileSwitchBar manager x y mouseOpt = some next) :
    BarSeen manager next := by
  obtain ⟨pressed, -, handled⟩ := bind_eq_some_iff.mp handled
  cases pressed with
  | none => exact belowTabs_seen noInput handled
  | some i =>
    obtain ⟨id, -, button, read, handled⟩ := bind₂_eq_some_iff.mp handled
    exact tabButton_seen noInput read handled

end

/-! ## The mouse in the file list -/

/-- The name of the list that is at a place. -/
def nameAt (manager : BufferManager) (x y : Int) : (files : List Nat) → Option (Nat × Name)
  | [] => none
  | id :: rest => do
    let control ← manager.controls[id]?
    if isPosInArea control.area x y = true then
      (control.edit.text.line? 0).map fun filename => (id, filename)
    else nameAt manager x y rest

/-- Whether the name that is being renamed is at a place. -/
def overRenamed (manager : BufferManager) (x y : Int) : Bool :=
  manager.isRename && manager.fileList.fileSelected.any fun id =>
    (manager.controls[id]?).any fun control => isPosInArea control.area x y

/-- The same for a place in the window. -/
def overRenamedAt (manager : BufferManager) (x y : Int) : Bool :=
  overRenamed manager (mousePosTransform manager.fileList.area x y).1
    (mousePosTransform manager.fileList.area x y).2

/-- A click on a name of the list shows another directory. -/
def ClickEnters (manager : BufferManager) (x y : Int) (outside : Outside) : Prop :=
  ∃ clicked ∈ nameAt manager x y manager.fileList.files,
    entersDirectory manager clicked.2 outside = some true

section

variable {manager next : BufferManager} {x y : Int} {mouseOpt : MouseOpt} {outside : Outside}
  {files : List Nat}

theorem entersDirectory_eq (buttons : next.fileSwitch.buttons = manager.fileSwitch.buttons)
    (nFiles : next.fileSwitch.nFiles = manager.fileSwitch.nFiles)
    (tabButtons : next.tabButtons = manager.tabButtons) (kernel : next.kernel = manager.kernel)
    (filename : Name) :
    entersDirectory next filename outside = entersDirectory manager filename outside := by
  rw [entersDirectory, entersDirectory, fileSwitchBarFindFile, fileSwitchBarFindFile,
    findTab_congr buttons (fun id => by rw [tabButtons]), nFiles, canOpenTab, canOpenTab, nFiles,
    kernel]

theorem nameAt_eq (controls : next.controls = manager.controls) :
    nameAt next x y files = nameAt manager x y files := by
  induction files with
  | nil => rfl
  | cons id rest ih => rw [nameAt, nameAt, controls, ih]

theorem clickEnters_iff (files : next.fileList.files = manager.fileList.files)
    (controls : next.controls = manager.controls)
    (buttons : next.fileSwitch.buttons = manager.fileSwitch.buttons)
    (nFiles : next.fileSwitch.nFiles = manager.fileSwitch.nFiles)
    (tabButtons : next.tabButtons = manager.tabButtons) (kernel : next.kernel = manager.kernel) :
    ClickEnters next x y outside ↔ ClickEnters manager x y outside := by
  simp only [ClickEnters, files, nameAt_eq controls,
    entersDirectory_eq buttons nFiles tabButtons kernel]

/-- A left press in the list either hits no name, or selects and opens the first
one that it hits. -/
theorem leftPress_cases
    (handled : handleMouseFiles manager x y .leftPress outside files = some next) :
    (next = manager ∧ nameAt manager x y files = none) ∨
      ∃ id ∈ files, ∃ filename, nameAt manager x y files = some (id, filename) ∧
        id < manager.controls.length ∧
          fileSwitchBarOpenFile { manager with
            fileList := { manager.fileList with fileSelected := some id } } filename outside =
              some next := by
  induction files with
  | nil =>
    rw [handleMouseFiles, some.injEq] at handled
    exact .inl ⟨handled.symm, rfl⟩
  | cons id rest ih =>
    obtain ⟨control, read, handled⟩ := bind_eq_some_iff.mp handled
    rw [nameAt, read, bind_eq_bind, bind_some]
    split at handled
    · rename_i inside
      obtain ⟨filename, label, opened⟩ := bind_eq_some_iff.mp handled
      rw [if_pos inside, label]
      exact .inr ⟨id, mem_cons_self, filename, rfl, (List.getElem?_eq_some_iff.mp read).1, opened⟩
    · rename_i outsideOf
      rw [if_neg outsideOf]
      rcases ih handled with nothing | ⟨hit, isFile, rest⟩
      · exact .inl nothing
      · exact .inr ⟨hit, mem_cons_of_mem id isFile, rest⟩

/-- Opening a file keeps the selected name in the list; showing another
directory does not. -/
theorem openFile_seen {filename : Name}
    (opened : fileSwitchBarOpenFile manager filename outside = some next)
    (selected : manager.fileList.fileSelected = some id) (isFile : id ∈ manager.fileList.files)
    (bound : id < manager.controls.length) :
    next.isRename = manager.isRename ∧ next.fileList.fileSelected = some id ∧
      (id ∈ next.fileList.files ↔ entersDirectory manager filename outside ≠ some true) := by
  have other (stays : entersDirectory manager filename outside = some false) :
      entersDirectory manager filename outside ≠ some true := by
    rw [stays]
    decide
  cases openFile_opens opened with
  | shown stays bound slot => exact ⟨rfl, selected, iff_of_true isFile (other stays)⟩
  | unchanged kernel stays => exact ⟨rfl, selected, iff_of_true isFile (other stays)⟩
  | opened stays room called =>
    obtain ⟨⟨kernel, text, code⟩, -, called⟩ := bind_eq_some_iff.mp called
    cases called
    exact ⟨rfl, selected, iff_of_true isFile (other stays)⟩
  | entered enters called =>
    obtain ⟨isRename, new⟩ := updateFileList_new called
    refine ⟨isRename, (updateFileList_updated called).fileSelected.trans selected, ?_⟩
    refine iff_of_false (fun isNew => ?_) (fun not => not enters)
    exact absurd bound (Nat.not_lt.mpr (new id isNew))

/-- After a left press in the list the name that is selected is in the list,
unless the press shows another directory. -/
theorem leftPress_seen
    (handled : handleMouseFiles manager x y .leftPress outside manager.fileList.files = some next)
    (selected : manager.fileList.fileSelected = some id) (isFile : id ∈ manager.fileList.files) :
    next.isRename = manager.isRename ∧ ∃ clicked, next.fileList.fileSelected = some clicked ∧
      (clicked ∈ next.fileList.files ↔ ¬ ClickEnters manager x y outside) := by
  rcases leftPress_cases handled with ⟨rfl, noName⟩ | ⟨hit, isHit, filename, name, bound, opened⟩
  · refine ⟨rfl, id, selected, iff_of_true isFile ?_⟩
    rintro ⟨clicked, isClicked, -⟩
    rw [noName] at isClicked
    cases isClicked
  · obtain ⟨isRename, isSelected, stays⟩ := openFile_seen opened rfl isHit bound
    have same : entersDirectory { manager with
        fileList := { manager.fileList with fileSelected := some hit } } filename outside =
          entersDirectory manager filename outside :=
      entersDirectory_eq (by rfl) (by rfl) (by rfl) (by rfl) filename
    refine ⟨isRename, hit, isSelected, ?_⟩
    rw [stays, same, ClickEnters, name]
    simp

/-- After another mouse message to the list the name that is being renamed is in
the list. -/
theorem otherPress_seen
    (handled : handleMouseFiles manager x y mouseOpt outside files = some next)
    (notLeft : mouseOpt ≠ .leftPress) (inside : ∀ id ∈ files, id ∈ manager.fileList.files)
    (renames : manager.isRename = true →
      ∃ id, manager.fileList.fileSelected = some id ∧ id ∈ manager.fileList.files) :
    next.isRename = true →
      ∃ id, next.fileList.fileSelected = some id ∧ id ∈ next.fileList.files := by
  induction files generalizing manager with
  | nil =>
    cases handled
    exact renames
  | cons id rest ih =>
    obtain ⟨control, -, handled⟩ := bind_eq_some_iff.mp handled
    have isFile := inside id mem_cons_self
    have restInside : ∀ other ∈ rest, other ∈ manager.fileList.files :=
      fun other isOther => inside other (mem_cons_of_mem id isOther)
    split at handled
    · cases mouseOpt with
      | leftPress => exact absurd rfl notLeft
      | rightPress =>
        obtain ⟨control, -, handled⟩ := bind_eq_some_iff.mp handled
        cases handled
        exact fun _ => ⟨id, rfl, isFile⟩
      | leftRelease | rightRelease | move =>
        exact ih handled restInside fun _ => ⟨id, rfl, isFile⟩
    · exact ih handled restInside renames

end

/-! ## The condition on a message -/

/-- The condition on a mouse message: no left press on the name that is being
renamed shows another directory. -/
def MouseSeen (manager : BufferManager) (x y : Int) (mouseOpt : MouseOpt) (outside : Outside) :
    Prop :=
  let position := mousePosTransform manager.area x y
  let inList := mousePosTransform manager.fileList.area position.1 position.2
  mouseOpt = .leftPress → isPosInArea manager.fileList.area position.1 position.2 = true →
    overRenamed manager inList.1 inList.2 = true →
      ¬ ClickEnters manager inList.1 inList.2 outside

/-- The condition on a key: with a current file, `CTRL_F` shows the search frame
and does not hide it. -/
def KeySeen (manager : BufferManager) (c : Int) : Prop :=
  c = ctrlF → manager.focus = some .fileSwitch → manager.fileSwitch.current ≠ none →
    manager.fileSwitch.ifSearch = false

/-- The condition on a message under which the next key goes to a text that is
drawn. -/
def KeepsSeen (manager : BufferManager) : Message → Prop
  | .mouse x y mouseOpt outside => MouseSeen manager x y mouseOpt outside
  | .keyboard c _ => KeySeen manager c
  | .draw => True

/-! ### Mouse -/

section

variable {manager next : BufferManager} {x y : Int} {mouseOpt : MouseOpt} {outside : Outside}

/-- The names of the list are between the tool bar and the bar. -/
theorem overRenamed_place (placed : manager.Placed)
    (isOver : overRenamedAt manager x y = true) :
    manager.isRename = true ∧ x < 110 ∧ 30 ≤ y := by
  rw [overRenamedAt, overRenamed, Bool.and_eq_true, Option.any_eq_true] at isOver
  obtain ⟨isRename, id, -, isOver⟩ := isOver
  obtain ⟨control, read, isOver⟩ := (Option.any_eq_true _ _).mp isOver
  have area := placed.names control.area
    (List.mem_map.mpr ⟨control, mem_of_getElem? read, rfl⟩)
  have list : manager.fileList.area = ⟨10, 30, 90, 570, 0, 0⟩ := placed.list
  rw [isPosInArea, decide_eq_true_eq, list, mousePosTransform] at isOver
  refine ⟨isRename, ?_, ?_⟩ <;> simp only at isOver <;> omega

/-- A mouse message ends a renaming, unless the mouse is over the name. -/
theorem finishRename_cases {unset : Bool} (renames : manager.RenamesInList)
    (finished : finishRename manager x y unset = some next) :
    (next.isRename = false ∧ overRenamedAt manager x y = false) ∨
      next = manager ∧ overRenamedAt manager x y = true := by
  cases isRename : manager.isRename with
  | false =>
    refine .inl ⟨(finishRename_updated finished).notRenaming isRename, ?_⟩
    rw [overRenamedAt, overRenamed, isRename, Bool.false_and]
  | true =>
    obtain ⟨-, id, selected⟩ := renames isRename
    rw [finishRename, isRename, selected] at finished
    obtain ⟨control, read, finished⟩ := bind_eq_some_iff.mp finished
    simp only at finished
    split at finished
    · rename_i inside
      rw [some.injEq] at finished
      refine .inr ⟨finished.symm, ?_⟩
      simp [overRenamedAt, overRenamed, isRename, selected, read, inside]
    · rename_i outsideOf
      refine .inl ⟨(renameFileNameControl_relabelled finished).updated.notRenaming rfl, ?_⟩
      simp [overRenamedAt, overRenamed, isRename, selected, read, outsideOf]

theorem clearCurrentSelection_eq (cleared : clearCurrentSelection manager = some next) :
    ∃ buffers, next = { manager with buffers := buffers } := by
  rw [clearCurrentSelection] at cleared
  split at cleared
  · rw [some.injEq] at cleared
    exact ⟨manager.buffers, cleared.symm⟩
  · obtain ⟨buffer, read, cleared⟩ := bind_eq_some_iff.mp cleared
    rw [some.injEq] at cleared
    exact ⟨_, cleared.symm⟩

theorem keysSeen_of_notRenaming (calm : manager.isRename = false)
    (searched : manager.focus = some .fileSwitch → manager.fileSwitch.searchInput = true →
      manager.fileSwitch.ifSearch = true) :
    manager.RenamesInList ∧ manager.KeysSeen := by
  refine ⟨fun isRename => ?_, fun isRename => ?_, fun inBar _ => searched inBar⟩
  · rw [calm] at isRename
    cases isRename
  · rw [calm] at isRename
    cases isRename

/-- In the list the keys go to the name that is being renamed. -/
theorem keysSeen_of_inList (inList : manager.focus = some .fileList)
    (renames : manager.isRename = true →
      ∃ id, manager.fileList.fileSelected = some id ∧ id ∈ manager.fileList.files) :
    manager.RenamesInList ∧ manager.KeysSeen := by
  refine ⟨fun isRename => ?_, fun isRename _ id isSelected => ?_, fun inBar => ?_⟩
  · obtain ⟨id, selected, -⟩ := renames isRename
    exact ⟨inList, id, selected⟩
  · obtain ⟨other, selected, isFile⟩ := renames isRename
    obtain rfl := some.inj (selected.symm.trans isSelected)
    exact isFile
  · rw [inList] at inBar
    cases inBar

theorem leftPress_isRename
    (handled : handleMouseFiles manager x y .leftPress outside manager.fileList.files =
      some next) : next.isRename = manager.isRename := by
  rcases leftPress_cases handled with ⟨rfl, -⟩ | ⟨hit, isHit, filename, -, bound, opened⟩
  · rfl
  · have isRename := (openFile_seen opened rfl isHit bound).1
    exact isRename

/-- Where nothing is being renamed, a mouse message leaves the keys to a text
that is drawn. -/
theorem dispatchMouse_calm (noInput : manager.fileSwitch.searchInput = false)
    (calm : manager.isRename = false)
    (handled : dispatchMouse manager x y mouseOpt outside = some next) :
    next.RenamesInList ∧ next.KeysSeen := by
  rw [dispatchMouse] at handled
  split_ifs at handled
  · have seen := bar_seen (by exact noInput) handled
    exact keysSeen_of_notRenaming (seen.isRename.trans calm) fun _ => seen.searched
  · have inList := mouseFiles_focus handled
    by_cases isLeft : mouseOpt = .leftPress
    · subst isLeft
      have isRename := (leftPress_isRename handled).trans calm
      refine keysSeen_of_notRenaming isRename fun inBar => ?_
      cases inList.symm.trans inBar
    · refine keysSeen_of_inList inList (otherPress_seen handled isLeft (fun _ isFile => isFile) ?_)
      intro isRename
      cases calm.symm.trans isRename
  · have updated := handleMouseToolBar_updated handled
    exact keysSeen_of_notRenaming (updated.notRenaming calm) fun inBar => by
      cases updated.same.focus.symm.trans inBar
  · cases handled
    exact keysSeen_of_notRenaming calm fun _ input => by
      cases noInput.symm.trans input

/-- Over the name that is being renamed, a mouse message leaves the keys to a
text that is drawn unless it is a left press that shows another directory. -/
theorem dispatchMouse_renaming (placed : manager.Placed) (renames : manager.RenamesInList)
    (selected : manager.fileList.fileSelected = some id) (isFile : id ∈ manager.fileList.files)
    (isOver : overRenamedAt manager x y = true)
    (handled : dispatchMouse manager x y mouseOpt outside = some next) :
    next.RenamesInList ∧
      (next.KeysSeen ↔ (mouseOpt = .leftPress → isPosInArea manager.fileList.area x y = true →
        ¬ ClickEnters manager (mousePosTransform manager.fileList.area x y).1
          (mousePosTransform manager.fileList.area x y).2 outside)) := by
  obtain ⟨isRename, left, below⟩ := overRenamed_place placed isOver
  have bar : manager.fileSwitch.area = ⟨115, 23, 700, 700, 0, 0⟩ := placed.bar
  have tools : manager.toolBar.area = ⟨0, 0, 700, 30, 0, 0⟩ := placed.tools
  have notInBar : ¬ isPosInArea manager.fileSwitch.area x y = true := by
    simp only [bar, isPosInArea, decide_eq_true_eq]
    omega
  have notInTools : ¬ isPosInArea manager.toolBar.area x y = true := by
    simp only [tools, isPosInArea, decide_eq_true_eq]
    omega
  rw [dispatchMouse, if_neg notInBar] at handled
  split at handled
  · rename_i inside
    have inList := mouseFiles_focus handled
    by_cases isLeft : mouseOpt = .leftPress
    · subst isLeft
      obtain ⟨stillRename, clicked, isClicked, listed⟩ := leftPress_seen handled selected isFile
      refine ⟨fun _ => ⟨inList, clicked, isClicked⟩, ?_⟩
      rw [forall_prop_of_true rfl, forall_prop_of_true inside]
      refine Iff.trans ?_ (listed.trans (not_congr (clickEnters_iff (by rfl) (by rfl) (by rfl)
        (by rfl) (by rfl) (by rfl))))
      refine ⟨fun seen => ?_, fun isListed => ?_⟩
      · exact seen.renamed (stillRename.trans isRename) inList clicked isClicked
      · exact (keysSeen_of_inList inList fun _ => ⟨clicked, isClicked, isListed⟩).2
    · obtain ⟨nextRenames, seen⟩ := keysSeen_of_inList inList (otherPress_seen handled isLeft
        (fun _ isFile => isFile) fun _ => ⟨id, selected, isFile⟩)
      exact ⟨nextRenames, iff_of_true seen fun isSame => absurd isSame isLeft⟩
  · rename_i outsideOf
    cases handled
    obtain ⟨-, seen⟩ := keysSeen_of_inList (renames isRename).1 fun _ => ⟨id, selected, isFile⟩
    exact ⟨renames, iff_of_true seen fun _ inside => absurd inside outsideOf⟩

/-- After a mouse message the next key goes to a text that is drawn exactly under
the condition. -/
theorem mouse_seen_iff (placed : manager.Placed) (renames : manager.RenamesInList)
    (seen : manager.KeysSeen)
    (handled : handleMouseBufferManager manager x y mouseOpt outside = some next) :
    next.RenamesInList ∧ (next.KeysSeen ↔ MouseSeen manager x y mouseOpt outside) := by
  simp only [handleMouseBufferManager] at handled
  split at handled
  · rename_i drags
    have bar := bar_seen (by rfl) handled
    have notLeft : mouseOpt ≠ .leftPress := by
      rintro rfl
      simp [dragsText] at drags
    refine ⟨?_, iff_of_true ⟨?_, fun _ _ => bar.searched⟩ fun isLeft => absurd isLeft notLeft⟩
    · rw [RenamesInList, bar.isRename, bar.focus, bar.fileList]
      exact renames
    · rw [bar.isRename, bar.focus, bar.fileList]
      exact seen.renamed
  · obtain ⟨finished, finishing, cleared, clearing, handled⟩ := bind₂_eq_some_iff.mp handled
    have edited := (clearCurrentSelection_edited clearing).sameKeys
    have noInput := edited.searchInput.trans (finishRename_updated finishing).same.searchInput
    rcases finishRename_cases (by exact renames) finishing with ⟨calm, notOver⟩ | ⟨rfl, isOver⟩
    · obtain ⟨nextRenames, nextSeen⟩ :=
        dispatchMouse_calm noInput (edited.isRename.trans calm) handled
      refine ⟨nextRenames, iff_of_true nextSeen fun _ _ isOver => ?_⟩
      cases notOver.symm.trans isOver
    · have start : { manager with fileSwitch := { manager.fileSwitch with
          searchInput := false } }.Placed := placed.congr rfl
      have clearedPlaced := (clearCurrentSelection_edited clearing).updated.placed start
      obtain ⟨isRename, -, -⟩ := overRenamed_place start isOver
      obtain ⟨inList, id, selected⟩ := renames isRename
      have isFile := seen.renamed isRename inList id selected
      obtain ⟨buffers, rfl⟩ := clearCurrentSelection_eq clearing
      obtain ⟨nextRenames, nextSeen⟩ :=
        dispatchMouse_renaming clearedPlaced renames selected isFile isOver handled
      refine ⟨nextRenames, nextSeen.trans (imp_congr_right fun _ => imp_congr_right fun _ => ?_)⟩
      refine (not_congr ?_).trans ⟨fun not _ => not, fun not => not isOver⟩
      exact clickEnters_iff (by rfl) (by rfl) (by rfl) (by rfl) (by rfl) (by rfl)

end

/-! ### Keyboard and drawing -/

section

variable {table : PinyinTable} {manager next : BufferManager} {c : Int} {outside : Outside}

theorem sameKeys_searchCurrent (searched : searchCurrent manager id = some next) :
    SameKeys manager next := by
  obtain ⟨buffer, read, pattern, -, ⟨edit, found⟩, -, searched⟩ := bind₃_eq_some_iff.mp searched
  simp only at searched
  split at searched
  · cases searched
    exact ⟨rfl, rfl, rfl, rfl, rfl, rfl⟩
  · cases searched
    exact ⟨rfl, rfl, rfl, rfl, rfl, rfl⟩

/-- After a key to the bar the next one goes to a text that is drawn exactly
under the condition. -/
theorem barKey_seen_iff (shown : Tabs manager tabs) (inBar : manager.focus = some .fileSwitch)
    (calm : manager.isRename = false) (seen : manager.KeysSeen) (barKey : BarKey manager c next) :
    next.RenamesInList ∧ (next.KeysSeen ↔ KeySeen manager c) := by
  have vacuous : ¬ manager.isRename = true := by
    rw [calm]
    exact Bool.false_ne_true
  have finish (same : SameKeys manager next) (notCtrlF : c ≠ ctrlF) :
      next.RenamesInList ∧ (next.KeysSeen ↔ KeySeen manager c) :=
    ⟨same.renamesInList fun isRename => absurd isRename vacuous,
      iff_of_true (same.keysSeen seen) fun isCtrlF => absurd isCtrlF notCtrlF⟩
  cases barKey with
  | @switched fileSwitch isTab called =>
    subst isTab
    have same := handleTab_sameBar called
    have current : fileSwitch.current = none ↔ manager.fileSwitch.current = none :=
      (shown.handleTab called).noCurrent.trans shown.noCurrent.symm
    refine ⟨fun isRename => absurd isRename vacuous,
      iff_of_true ⟨fun isRename => absurd isRename vacuous, ?_⟩ ?_⟩
    · intro _ isOpen input
      exact same.ifSearch.trans (seen.searched inBar
        (fun noCurrent => isOpen (current.mpr noCurrent)) (same.searchInput.symm.trans input))
    · intro isCtrlF
      exact absurd isCtrlF (by decide)
  | toggled isCtrlF =>
    subst isCtrlF
    refine ⟨fun isRename => absurd isRename vacuous, ?_⟩
    constructor
    · intro nextSeen _ _ isOpen
      have shows := nextSeen.searched inBar isOpen rfl
      exact Bool.not_eq_true' _ |>.mp shows
    · intro keeps
      refine ⟨fun isRename => absurd isRename vacuous, fun _ isOpen _ => ?_⟩
      exact Bool.not_eq_true' _ |>.mpr (keeps rfl inBar isOpen)
  | searched isEnter _ _ called =>
    subst isEnter
    exact finish (sameKeys_searchCurrent called) (by decide)
  | typed _ notCtrlF _ edited => exact finish edited.sameKeys notCtrlF
  | file _ notCtrlF noInput updated =>
    obtain ⟨renames, nextSeen⟩ := keysSeen_of_notRenaming (updated.notRenaming calm)
      fun _ input => absurd (updated.same.searchInput.symm.trans input) noInput
    exact ⟨renames, iff_of_true nextSeen fun isCtrlF => absurd isCtrlF notCtrlF⟩

/-- After a key the next one goes to a text that is drawn exactly under the
condition. -/
theorem key_seen_iff (shown : Tabs manager tabs) (renames : manager.RenamesInList)
    (seen : manager.KeysSeen)
    (handled : handleKeyboardBufferManager table manager c outside = some next) :
    next.RenamesInList ∧ (next.KeysSeen ↔ KeySeen manager c) := by
  have finish (same : SameKeys manager next) (keeps : KeySeen manager c) :
      next.RenamesInList ∧ (next.KeysSeen ↔ KeySeen manager c) :=
    ⟨same.renamesInList renames, iff_of_true (same.keysSeen seen) keeps⟩
  cases handleKeyboardBufferManager_keyed handled with
  | pinyin _ notCtrlF _ edited =>
    exact finish edited.sameKeys fun isCtrlF => absurd isCtrlF notCtrlF
  | name inList edited =>
    exact finish edited.sameKeys fun _ inBar => by cases inList.symm.trans inBar
  | bar inBar _ barKey =>
    have cleared : SameKeys manager (manager.setStatus "") := (Change.status "").sameKeys
    have clearedShown : Tabs (manager.setStatus "") tabs :=
      shown.congr shown.toBarTabs rfl rfl
    have calm : manager.isRename = false := by
      rw [← Bool.not_eq_true]
      intro isRename
      have inList := (renames isRename).1
      rw [inBar] at inList
      cases inList
    have bar := barKey_seen_iff clearedShown inBar calm (cleared.keysSeen seen) barKey
    exact bar
  | other notRenaming notInBar updated =>
    have calm : manager.isRename = false := by
      rw [← Bool.not_eq_true]
      intro isRename
      exact notRenaming ⟨isRename, (renames isRename).1⟩
    obtain ⟨nextRenames, nextSeen⟩ := keysSeen_of_notRenaming (updated.notRenaming calm)
      fun inBar => absurd (updated.same.focus.symm.trans inBar) notInBar
    exact ⟨nextRenames, iff_of_true nextSeen fun _ inBar => absurd inBar notInBar⟩

theorem sameKeys_drawBufferManager (drawn : drawBufferManager manager = some next) :
    SameKeys manager next := by
  obtain ⟨named, names, placed, tabs, shown, edits, drawn⟩ := bind₃_eq_some_iff.mp drawn
  cases drawn
  obtain ⟨tabButtons, rfl⟩ := placeTabs_eq tabs
  have named := (drawFileNames_edited names).sameKeys
  have edited := (drawCurrent_edited edits).sameKeys
  exact named.trans ⟨edited.1, edited.2, edited.3, edited.4, edited.5, edited.6⟩

end

/-! ## Runs -/

section

variable {table : PinyinTable} {manager next : BufferManager}

/-- The condition is exact for every message. -/
theorem step_seen_iff {message : Message} (placed : manager.Placed) (shown : Tabs manager tabs)
    (renames : manager.RenamesInList) (seen : manager.KeysSeen)
    (stepped : manager.step table message = some next) :
    next.RenamesInList ∧ (next.KeysSeen ↔ KeepsSeen manager message) := by
  cases message with
  | mouse x y mouseOpt outside => exact mouse_seen_iff placed renames seen stepped
  | keyboard c outside => exact key_seen_iff shown renames seen stepped
  | draw =>
    have same := sameKeys_drawBufferManager stepped
    exact ⟨same.renamesInList renames, iff_of_true (same.keysSeen seen) trivial⟩

theorem makeBufferManager_seen {kernel : State} {search pinyin : Unset}
    (made : makeBufferManager kernel search pinyin = some manager) :
    manager.RenamesInList ∧ manager.KeysSeen := by
  obtain ⟨start, updated, -, -, focus, isRename⟩ := makeBufferManager_updated made
  refine keysSeen_of_notRenaming (updated.notRenaming isRename) fun inBar => ?_
  rw [updated.same.focus, focus] at inBar
  cases inBar

/-- In every state of a run whose messages all meet the condition, a printable
key changes only texts that are drawn.  The condition cannot be weakened: after
a message that fails it some key changes a text that is not drawn, if the pinyin
input is off and keys return. -/
theorem keys_seen_throughout {kernel : State} {search pinyin : Unset} {start : BufferManager}
    (made : makeBufferManager kernel search pinyin = some start)
    (reached : Reached (BufferManager.step table) KeepsSeen start manager) :
    manager.SeenOnly table ∧
      ∀ message next, manager.step table message = some next → ¬ KeepsSeen manager message →
        next.pinyin.on = false →
          (∃ c outside typed, 32 ≤ c ∧ c ≤ 126 ∧
            handleKeyboardBufferManager table next c outside = some typed) →
          ¬ next.SeenOnly table := by
  have keeps : ∀ state message next,
      (state.Placed ∧ ∃ tabs, Tabs state tabs) ∧ state.RenamesInList ∧ state.KeysSeen →
        KeepsSeen state message → state.step table message = some next →
          (next.Placed ∧ ∃ tabs, Tabs next tabs) ∧ next.RenamesInList ∧ next.KeysSeen := by
    rintro state message next ⟨⟨placed, tabs, shown⟩, renames, seen⟩ condition stepped
    obtain ⟨nextRenames, nextSeen⟩ := step_seen_iff placed shown renames seen stepped
    exact ⟨step_placed ⟨placed, tabs, shown⟩ stepped, nextRenames, nextSeen.mpr condition⟩
  obtain ⟨⟨placed, tabs, shown⟩, renames, seen⟩ :=
    reached.invariant keeps ⟨makeBufferManager_placed made, makeBufferManager_seen made⟩
  refine ⟨seen.seenOnly, ?_⟩
  rintro message next stepped fails off ⟨c, outside, typed, low, high, handled⟩
  have hidden := mt (step_seen_iff placed shown renames seen stepped).2.mp fails
  exact not_seenOnly hidden off low high handled

end

/-! ### Runs that show and hide the search frame -/

/-- The file `a` is current, and the search frame is shown. -/
def searching : BufferManager :=
  (clicked.step noHan (.keyboard ctrlF nothing)).get (by decide)

theorem keys_seen_while_searching :
    searching.fileSwitch.searchInput = true ∧ searching.fileSwitch.ifSearch = true ∧
      searching.SeenOnly noHan := by
  have showing : clicked.step noHan (.keyboard ctrlF nothing) = some searching :=
    (some_get _).symm
  have openKeeps : KeepsSeen listed (.mouse 15 65 .leftPress nothing) :=
    fun _ _ isOver => absurd isOver (by decide)
  have clickKeeps : KeepsSeen opened (.mouse 300 100 .leftPress nothing) :=
    fun _ _ isOver => absurd isOver (by decide)
  have showKeeps : KeepsSeen clicked (.keyboard ctrlF nothing) := fun _ _ _ => by decide
  have reached : Reached (BufferManager.step noHan) KeepsSeen listed searching :=
    ((Reached.start.step openKeeps opened_step).step clickKeeps clicked_step).step showKeeps showing
  exact ⟨by decide, by decide, (keys_seen_throughout listed_made reached).1⟩

/-- Open a file, click its text, show the search frame and hide it. -/
def showThenHide : List Message :=
  [.mouse 15 65 .leftPress nothing, .mouse 300 100 .leftPress nothing, .keyboard ctrlF nothing,
    .keyboard ctrlF nothing]

/-- Rename the entry `.` of the list, and click it. -/
def clickRenamed : List Message :=
  [.mouse 15 35 .rightPress nothing, .mouse 15 35 .leftPress nothing]

/-- After the search frame has been hidden a letter goes to it.  After a click on
the entry `.` while it is renamed a letter goes to a name that is no more in the
list. -/
theorem letter_goes_to_hidden_text :
    makeBufferManager (twoFiles 100) ⟨0, 0, 0⟩ ⟨0, 0, 0⟩ = some listed ∧
    (∃ manager next, Reached (BufferManager.step noHan) (fun _ _ => True) listed manager ∧
      manager.pinyin.on = false ∧ manager.fileSwitch.ifSearch = false ∧
      manager.step noHan (.keyboard 122 nothing) = some next ∧
      next.textAt (.edit .search) ≠ manager.textAt (.edit .search) ∧
      .edit .search ∉ manager.drawnTexts) ∧
    ∃ manager next id, Reached (BufferManager.step noHan) (fun _ _ => True) listed manager ∧
      manager.pinyin.on = false ∧ manager.step noHan (.keyboard 122 nothing) = some next ∧
      next.textAt (.edit (.control id)) ≠ manager.textAt (.edit (.control id)) ∧
      .edit (.control id) ∉ manager.drawnTexts := by
  let hidden := (run (BufferManager.step noHan) listed showThenHide).get (by decide)
  let left := (run (BufferManager.step noHan) listed clickRenamed).get (by decide)
  have hides : run (BufferManager.step noHan) listed showThenHide = some hidden :=
    (some_get _).symm
  have leaves : run (BufferManager.step noHan) listed clickRenamed = some left :=
    (some_get _).symm
  refine ⟨(some_get _).symm, ?_, ?_⟩
  · exact ⟨hidden, (hidden.step noHan (.keyboard 122 nothing)).get (by decide),
      reached_of_run .start hides, by decide, by decide, (some_get _).symm, by decide,
      by decide⟩
  · exact ⟨left, (left.step noHan (.keyboard 122 nothing)).get (by decide), 0,
      reached_of_run .start leaves, by decide, (some_get _).symm, by decide, by decide⟩

end XEditor.Gui
