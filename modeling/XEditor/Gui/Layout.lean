import XEditor.Gui.Manager

/-!
# What the handlers leave in place

Most handlers change texts, files and messages only.  Each of them makes a
sequence of elementary changes; what such a change leaves in place is said once,
and a handler needs one lemma that says which changes it makes.

`Same` relates two states between which the focus, the tabs and the areas of the
components have not changed.
-/

namespace XEditor.Gui

open List Option Edit Kernel Text Run

/-- Where the components are, and which edit has the cursor. -/
structure Layout where
  cursorFocus : Option EditRef
  cursorFocusType : FocusType
  current : Option Nat
  buttons : List (Option Nat)
  files : List (Option Nat)
  nFiles : Nat
  ifSearch : Bool
  area : Area
  listArea : Area
  toolArea : Area
  barArea : Area
  searchArea : Area
  tabAreas : List Area
  bufferAreas : List Area

/-- The layout of a state. -/
def BufferManager.layout (manager : BufferManager) : Layout where
  cursorFocus := manager.cursorFocus
  cursorFocusType := manager.cursorFocusType
  current := manager.fileSwitch.current
  buttons := manager.fileSwitch.buttons
  files := manager.fileSwitch.files
  nFiles := manager.fileSwitch.nFiles
  ifSearch := manager.fileSwitch.ifSearch
  area := manager.area
  listArea := manager.fileList.area
  toolArea := manager.toolBar.area
  barArea := manager.fileSwitch.area
  searchArea := manager.fileSwitch.search.area
  tabAreas := manager.tabButtons.map (·.area)
  bufferAreas := manager.buffers.map (·.area)

/-- Two states with the same layout and the same place for the input. -/
structure Same (manager next : BufferManager) : Prop where
  layout : next.layout = manager.layout
  focus : next.focus = manager.focus
  searchInput : next.fileSwitch.searchInput = manager.fileSwitch.searchInput

namespace Same

variable {first second third : BufferManager}

theorem refl (manager : BufferManager) : Same manager manager :=
  ⟨rfl, rfl, rfl⟩

theorem trans (before : Same first second) (after : Same second third) : Same first third :=
  ⟨after.layout.trans before.layout, after.focus.trans before.focus,
    after.searchInput.trans before.searchInput⟩

theorem cursorFocus (same : Same first second) : second.cursorFocus = first.cursorFocus :=
  congrArg Layout.cursorFocus same.layout

theorem current (same : Same first second) : second.fileSwitch.current = first.fileSwitch.current :=
  congrArg Layout.current same.layout

end Same

/-! ## Elementary changes -/

/-- The place and the size of an area.  Scrolling changes neither. -/
def frame (area : Area) : Int × Int × Int × Int :=
  (area.x, area.y, area.width, area.height)

/-- One change of a text, of its scrolling, or of something that is no
component. -/
inductive Change (manager : BufferManager) : BufferManager → Prop
  | kernel (kernel : State) : Change manager { manager with kernel := kernel }
  | clipBoard (clipBoard : Option Textframe) :
      Change manager { manager with clipBoard := clipBoard }
  | pinyin (pinyin : PinyinInput) : Change manager { manager with pinyin := pinyin }
  | status (message : String) : Change manager (manager.setStatus message)
  | search {edit : TextEdit} (kept : frame edit.area = frame manager.fileSwitch.search.edit.area) :
      Change manager (manager.setSearchEdit edit)
  | control {id : Nat} {control : FileNameControl} (read : manager.controls[id]? = some control)
      (edit : LineEdit) : Change manager (manager.setControlEdit id control edit)
  | file {id : Nat} {buffer : FileBuffer} {edit : TextEdit}
      (read : manager.buffers[id]? = some buffer)
      (kept : frame edit.area = frame buffer.edit.area) :
      Change manager (manager.setEdit id buffer edit)
  | path {id : Nat} {buffer : FileBuffer} (read : manager.buffers[id]? = some buffer)
      (filepathname : Path) :
      Change manager { manager with
        buffers := manager.buffers.set id { buffer with filepathname := filepathname } }
  | label {id : Nat} {button : TabButton} (read : manager.tabButtons[id]? = some button)
      (edit : LineEdit) :
      Change manager { manager with
        tabButtons := manager.tabButtons.set id { button with edit := edit } }

/-- Besides, a handler may make the file list again and end a renaming. -/
inductive Update (manager : BufferManager) : BufferManager → Prop
  | change {next : BufferManager} (change : Change manager next) : Update manager next
  | relist (names : List Name) :
      Update manager { manager with
        controls := manager.controls ++ names.mapIdx fileNameControlAt
        fileList := { manager.fileList with
          files := (List.range names.length).map (manager.controls.length + ·) } }
  | endRename : Update manager { manager with isRename := false }

/-- The changes that a renaming makes.  None of them is one of a text of the
bar. -/
inductive Relabel (manager : BufferManager) : BufferManager → Prop
  | kernel (kernel : State) : Relabel manager { manager with kernel := kernel }
  | path {id : Nat} {buffer : FileBuffer} (read : manager.buffers[id]? = some buffer)
      (filepathname : Path) :
      Relabel manager { manager with
        buffers := manager.buffers.set id { buffer with filepathname := filepathname } }
  | label {id : Nat} {button : TabButton} (read : manager.tabButtons[id]? = some button)
      (edit : LineEdit) :
      Relabel manager { manager with
        tabButtons := manager.tabButtons.set id { button with edit := edit } }
  | relist (names : List Name) :
      Relabel manager { manager with
        controls := manager.controls ++ names.mapIdx fileNameControlAt
        fileList := { manager.fileList with
          files := (List.range names.length).map (manager.controls.length + ·) } }
  | endRename : Relabel manager { manager with isRename := false }

/-- A sequence of changes. -/
abbrev Edited : BufferManager → BufferManager → Prop :=
  Relation.ReflTransGen Change

/-- A sequence of changes and updates of the list. -/
abbrev Updated : BufferManager → BufferManager → Prop :=
  Relation.ReflTransGen Update

/-- A sequence of changes that a renaming makes. -/
abbrev Relabelled : BufferManager → BufferManager → Prop :=
  Relation.ReflTransGen Relabel

section

variable {manager next last : BufferManager}

theorem Change.edited (change : Change manager next) : Edited manager next :=
  .single change

theorem Edited.updated (edited : Edited manager next) : Updated manager next :=
  Relation.ReflTransGen.mono (fun _ _ change => Update.change change) manager next edited

theorem Relabel.update (relabel : Relabel manager next) : Update manager next := by
  cases relabel with
  | kernel kernel => exact .change (.kernel kernel)
  | path read filepathname => exact .change (.path read filepathname)
  | label read edit => exact .change (.label read edit)
  | relist names => exact .relist names
  | endRename => exact .endRename

theorem Relabelled.updated (relabelled : Relabelled manager next) : Updated manager next :=
  Relation.ReflTransGen.mono (fun _ _ relabel => Relabel.update relabel) manager next relabelled

variable {i left : Nat} {oldName newName : Name} {y x : Int} {hit : TabButton → Option Bool}

theorem map_set_eq {α β : Type*} {f : α → β} {entries : List α} {old new : α}
    (read : entries[i]? = some old) (unchanged : f new = f old) :
    (entries.set i new).map f = entries.map f := by
  have same : (entries.map f)[i]? = some (f new) := by
    rw [getElem?_map, read, map_some, unchanged]
  obtain ⟨inside, new_eq⟩ := List.getElem?_eq_some_iff.mp same
  rw [map_set, ← new_eq, set_getElem_self]

/-- Tabs and files may change as long as their areas do not. -/
theorem same_of_areas {tabButtons : List TabButton} {buffers : List FileBuffer}
    (tabAreas : tabButtons.map (·.area) = manager.tabButtons.map (·.area))
    (bufferAreas : buffers.map (·.area) = manager.buffers.map (·.area)) :
    Same manager { manager with tabButtons := tabButtons, buffers := buffers } := by
  refine ⟨?_, rfl, rfl⟩
  simp only [BufferManager.layout, tabAreas, bufferAreas]

theorem Change.same (change : Change manager next) : Same manager next := by
  cases change with
  | kernel | clipBoard | pinyin | status | search | control => exact ⟨rfl, rfl, rfl⟩
  | file read kept => exact same_of_areas rfl (map_set_eq read rfl)
  | path read filepathname => exact same_of_areas rfl (map_set_eq read rfl)
  | label read edit => exact same_of_areas (map_set_eq read rfl) rfl

theorem Update.same (update : Update manager next) : Same manager next := by
  cases update with
  | change change => exact change.same
  | relist | endRename => exact ⟨rfl, rfl, rfl⟩

theorem Updated.same (updated : Updated manager next) : Same manager next := by
  induction updated with
  | refl => exact Same.refl manager
  | tail _ update ih => exact ih.trans update.same

theorem Edited.same (edited : Edited manager next) : Same manager next :=
  edited.updated.same

theorem modifyText_edited {ref : EditRef} {change : Textframe → Option Textframe}
    (modified : manager.modifyText ref change = some next) : Edited manager next := by
  cases ref with
  | control id =>
    obtain ⟨control, read, text, -, modified⟩ := bind₂_eq_some_iff.mp modified
    cases modified
    exact (Change.control read _).edited
  | search =>
    obtain ⟨text, -, modified⟩ := bind_eq_some_iff.mp modified
    cases modified
    exact (Change.search (by rfl)).edited
  | file id =>
    obtain ⟨buffer, read, text, -, modified⟩ := bind₂_eq_some_iff.mp modified
    cases modified
    exact (Change.file read (by rfl)).edited

end

/-! ## The file list -/

variable {id : Nat} {unset : Bool} {faults : Nat → Option Nat} {c : Int} {outside : Outside}

section

variable {manager next : BufferManager}

section

variable (updated : fileListBufferUpdateFileList manager = some next)
include updated

/-- The names of the new list are made behind all those made before. -/
theorem updateFileList_eq :
    ∃ kernel, ∃ names : List Name, next = { manager with
      kernel := kernel
      controls := manager.controls ++ names.mapIdx fileNameControlAt
      fileList := { manager.fileList with
        files := (List.range names.length).map (manager.controls.length + ·) } } := by
  rw [fileListBufferUpdateFileList] at updated
  obtain ⟨⟨counting, counted⟩, -, ⟨listing, listed⟩, -, updated⟩ := bind₂_eq_some_iff.mp updated
  simp only at updated
  split at updated
  · contradiction
  · rw [some.injEq] at updated
    exact ⟨listing, _, updated.symm⟩

theorem updateFileList_relabelled : Relabelled manager next := by
  obtain ⟨kernel, names, rfl⟩ := updateFileList_eq updated
  exact (Relation.ReflTransGen.single (.kernel kernel)).tail (.relist names)

theorem updateFileList_updated : Updated manager next :=
  (updateFileList_relabelled updated).updated

end

/-- The list is made again after system calls. -/
theorem updateFileList_after {kernel : State}
    (updated : fileListBufferUpdateFileList { manager with kernel := kernel } = some next) :
    Updated manager next :=
  (Change.kernel kernel).edited.updated.trans (updateFileList_updated updated)

theorem relabelTab_relabelled (relabelled : relabelTab manager oldName newName i = some next) :
    Relabelled manager next := by
  obtain ⟨id, -, button, readButton, label, -, relabelled⟩ := bind₃_eq_some_iff.mp relabelled
  split at relabelled
  · cases relabelled
    exact .refl
  obtain ⟨file, -, buffer, readBuffer, relabelled⟩ := bind₂_eq_some_iff.mp relabelled
  split at relabelled
  · cases relabelled
    exact .refl
  · cases relabelled
    exact (Relation.ReflTransGen.single (.label readButton _)).tail (.path (by exact readBuffer) _)

theorem relabelLoop_relabelled
    (relabelled : relabelLoop oldName newName left i manager = some next) :
    Relabelled manager next := by
  induction left generalizing i manager with
  | zero =>
    cases relabelled
    exact .refl
  | succ left ih =>
    obtain ⟨middle, first, rest⟩ := bind_eq_some_iff.mp relabelled
    exact (relabelTab_relabelled first).trans (ih rest)

theorem renameFileNameControl_relabelled
    (renamed : renameFileNameControl manager id unset = some next) :
    Relabelled { manager with isRename := false } next := by
  obtain ⟨control, -, newName, -, ⟨kernel, isDir⟩, -, renamed⟩ := bind₃_eq_some_iff.mp renamed
  simp only at renamed
  split at renamed
  · cases renamed
    exact .single (.kernel kernel)
  obtain ⟨moved, -, renamed⟩ := bind_eq_some_iff.mp renamed
  obtain ⟨relabelled, loop, updated⟩ := bind_eq_some_iff.mp renamed
  have start : Relabelled { manager with isRename := false }
      { manager with isRename := false, kernel := moved } := .single (.kernel moved)
  exact (start.trans (relabelLoop_relabelled loop)).trans (updateFileList_relabelled updated)

theorem finishRename_relabelled (finished : finishRename manager x y unset = some next) :
    Relabelled manager next := by
  rw [finishRename] at finished
  split at finished
  · obtain ⟨control, -, finished⟩ := bind_eq_some_iff.mp finished
    simp only at finished
    split at finished
    · cases finished
      exact .refl
    · exact (Relation.ReflTransGen.single .endRename).trans
        (renameFileNameControl_relabelled finished)
  · cases finished
    exact .refl

theorem finishRename_updated (finished : finishRename manager x y unset = some next) :
    Updated manager next :=
  (finishRename_relabelled finished).updated

theorem clearCurrentSelection_edited (cleared : clearCurrentSelection manager = some next) :
    Edited manager next := by
  rw [clearCurrentSelection] at cleared
  split at cleared
  · cases cleared
    exact .refl
  · obtain ⟨buffer, read, cleared⟩ := bind_eq_some_iff.mp cleared
    cases cleared
    exact (Change.file read (by rfl)).edited

theorem fileBufferSaveFile_updated (saved : fileBufferSaveFile manager id faults = some next) :
    Updated manager next := by
  obtain ⟨buffer, read, saved⟩ := bind_eq_some_iff.mp saved
  obtain ⟨⟨kernel, text, code⟩, -, updated⟩ := bind_eq_some_iff.mp saved
  have stillThere : { manager with kernel := kernel }.buffers[id]? = some buffer := read
  have start := (@Change.kernel manager kernel).edited
  exact (Edited.updated (start.tail (.file stillThere (by rfl)))).trans
    (updateFileList_updated updated)

theorem handleKeyboardFileListBuffer_edited
    (handled : handleKeyboardFileListBuffer manager c = some next) : Edited manager next := by
  rw [handleKeyboardFileListBuffer] at handled
  split at handled
  · cases handled
    exact .refl
  · obtain ⟨control, read, edit, -, handled⟩ := bind₂_eq_some_iff.mp handled
    cases handled
    exact (Change.control read edit).edited

theorem deleteSelected_updated (deleted : deleteSelected manager = some next) :
    Updated manager next := by
  rw [deleteSelected] at deleted
  split at deleted
  · cases deleted
    exact .refl
  · obtain ⟨control, -, filename, -, deleted⟩ := bind₂_eq_some_iff.mp deleted
    obtain ⟨⟨kernel, code⟩, -, updated⟩ := bind_eq_some_iff.mp deleted
    exact updateFileList_after updated

end

/-! ## The bar -/

/-- Two bars that differ in their tabs only. -/
structure SameBar (bar next : FileSwitchBar) : Prop where
  area : next.area = bar.area
  search : next.search = bar.search
  ifSearch : next.ifSearch = bar.ifSearch
  searchInput : next.searchInput = bar.searchInput

section

variable {bar next : FileSwitchBar}

theorem closeTab_sameBar (closed : closeTab bar i = some next) : SameBar bar next := by
  rw [closeTab] at closed
  split at closed
  · split at closed
    · cases closed
      exact ⟨rfl, rfl, rfl, rfl⟩
    · obtain ⟨file, -, closed⟩ := bind_eq_some_iff.mp closed
      cases closed
      exact ⟨rfl, rfl, rfl, rfl⟩
  · obtain ⟨files, -, buttons, -, file, -, closed⟩ := bind₃_eq_some_iff.mp closed
    cases closed
    exact ⟨rfl, rfl, rfl, rfl⟩

theorem handleTab_sameBar (called : fileSwitchBarHandleTab bar = some next) : SameBar bar next := by
  rw [fileSwitchBarHandleTab] at called
  split at called
  · cases called
    exact ⟨rfl, rfl, rfl, rfl⟩
  · obtain ⟨file, -, called⟩ := bind_eq_some_iff.mp called
    cases called
    exact ⟨rfl, rfl, rfl, rfl⟩

end

/-! ## Opening files and directories -/

/-- Whether `FileSwitchBar_open_file` shows another directory. -/
def entersDirectory (manager : BufferManager) (filename : Name) (outside : Outside) :
    Option Bool := do
  match ← fileSwitchBarFindFile manager filename with
  | some _ => some false
  | none => do
    let (kernel, isFile) ← canOpenTab manager filename outside.opened
    if isFile = true then some false
    else (fileIsDir kernel filename outside.entered).map (·.2)

/-- What `FileSwitchBar_open_file` can do: show the tab that is there, open one,
show another directory, or nothing. -/
inductive Opens (manager : BufferManager) (filename : Name) (outside : Outside) :
    BufferManager → Prop
  | shown {i : Nat} {file : Option Nat}
      (stays : entersDirectory manager filename outside = some false)
      (bound : i < manager.fileSwitch.nFiles) (slot : manager.fileSwitch.files[i]? = some file) :
      Opens manager filename outside
        { manager with fileSwitch := { manager.fileSwitch with current := file } }
  | opened {kernel : State} {next : BufferManager}
      (stays : entersDirectory manager filename outside = some false)
      (room : manager.fileSwitch.nFiles < fileswitchMaxFiles)
      (called : openTab { manager with kernel := kernel } filename outside = some next) :
      Opens manager filename outside next
  | entered {kernel : State} {next : BufferManager}
      (enters : entersDirectory manager filename outside = some true)
      (called : enterDirectory { manager with kernel := kernel } filename = some next) :
      Opens manager filename outside next
  | unchanged (kernel : State) (stays : entersDirectory manager filename outside = some false) :
      Opens manager filename outside { manager with kernel := kernel }

section

variable {manager next : BufferManager} {filename : Name}

/-- The tab that a loop finds is one it looks at, and has the property. -/
theorem findTab_hit {k : Nat} (found : findTab manager hit left i = some (some k)) :
    k < i + left ∧ ∃ id button, manager.fileSwitch.buttons[k]?.join = some id ∧
      manager.tabButtons[id]? = some button ∧ hit button = some true := by
  induction left generalizing i with
  | zero => cases found
  | succ left ih =>
    obtain ⟨id, slot, button, read, isHit, hit_eq, found⟩ := bind₃_eq_some_iff.mp found
    split at found
    · rename_i hits
      cases found
      exact ⟨by omega, id, button, slot, read, hits ▸ hit_eq⟩
    · obtain ⟨bound, isTab⟩ := ih found
      exact ⟨by omega, isTab⟩

theorem findTab_succ (manager : BufferManager) (hit : TabButton → Option Bool) (left i : Nat) :
    findTab manager hit (left + 1) i = manager.fileSwitch.buttons[i]?.join.bind fun id =>
      (manager.tabButtons[id]?.bind hit).bind fun isHit =>
        if isHit = true then some (some i) else findTab manager hit left (i + 1) := by
  simp only [bind_assoc]
  rfl

/-- A loop over the tabs depends on the slots and on what it asks of the
buttons. -/
theorem findTab_congr (buttons : next.fileSwitch.buttons = manager.fileSwitch.buttons)
    (hits : ∀ id : Nat, next.tabButtons[id]?.bind hit = manager.tabButtons[id]?.bind hit)
    (left i : Nat) : findTab next hit left i = findTab manager hit left i := by
  induction left generalizing i with
  | zero => rfl
  | succ left ih => simp only [findTab_succ, buttons, hits, ih]

/-- A tab is opened only if there is room for it. -/
theorem canOpenTab_room {kernel : State}
    (can : canOpenTab manager filename unset = some (kernel, true)) :
    manager.fileSwitch.nFiles < fileswitchMaxFiles := by
  rw [canOpenTab] at can
  split at can
  · assumption
  · cases can

theorem openFile_opens (called : fileSwitchBarOpenFile manager filename outside = some next) :
    Opens manager filename outside next := by
  obtain ⟨found, isFound, called⟩ := bind_eq_some_iff.mp called
  cases found with
  | some i =>
    have stays : entersDirectory manager filename outside = some false := by
      simp [entersDirectory, isFound]
    obtain ⟨file, slot, called⟩ := bind_eq_some_iff.mp called
    rw [some.injEq] at called
    have bound := (findTab_hit isFound).1
    rw [Nat.zero_add] at bound
    exact called ▸ .shown stays bound slot
  | none =>
    obtain ⟨⟨kernel, isFile⟩, can, called⟩ := bind_eq_some_iff.mp called
    cases isFile with
    | true =>
      have stays : entersDirectory manager filename outside = some false := by
        simp [entersDirectory, isFound, can]
      exact .opened stays (canOpenTab_room can) called
    | false =>
      obtain ⟨⟨probed, isDir⟩, probing, called⟩ := bind_eq_some_iff.mp called
      have enters : entersDirectory manager filename outside = some isDir := by
        simp [entersDirectory, isFound, can, probing]
      cases isDir with
      | true =>
        exact .entered enters called
      | false =>
        cases called
        exact .unchanged probed enters

end

/-! ## The tool bar -/

section

variable {manager next : BufferManager}

theorem newFile_updated (made : newFile manager = some next) : Updated manager next := by
  obtain ⟨⟨kernel, fd⟩, -, updated⟩ := bind_eq_some_iff.mp made
  exact updateFileList_after updated

theorem saveCurrent_updated (saved : saveCurrent manager faults = some next) :
    Updated manager next := by
  rw [saveCurrent] at saved
  split at saved
  · cases saved
    exact .refl
  · exact fileBufferSaveFile_updated saved

theorem toggleHighlight_edited (toggled : toggleHighlight manager = some next) :
    Edited manager next := by
  rw [toggleHighlight.eq_def] at toggled
  split at toggled
  · cases toggled
    exact (Change.search (by rfl)).edited.tail (.status _)
  · obtain ⟨buffer, read, toggled⟩ := bind_eq_some_iff.mp toggled
    cases toggled
    exact (Change.file read (by rfl)).edited.tail (.status _)
  · contradiction
  · cases toggled
    exact .refl

theorem zoom_edited {allowed : Int → Bool} {delta : Int} {message : String}
    (zoomed : zoom manager allowed delta message = some next) : Edited manager next := by
  rw [zoom] at zoomed
  split at zoomed
  · cases zoomed
    exact .refl
  obtain ⟨buffer, read, zoomed⟩ := bind_eq_some_iff.mp zoomed
  split at zoomed
  · cases zoomed
    exact (Change.file read (by rfl)).edited
  · cases zoomed
    exact (Change.status message).edited

theorem buttonExecTool_updated {button : Button}
    (executed : buttonExecTool manager button outside = some next) : Updated manager next := by
  obtain ⟨name, -, executed⟩ := bind_eq_some_iff.mp executed
  split_ifs at executed
  · exact newFile_updated executed
  · exact updateFileList_updated executed
  · exact saveCurrent_updated executed
  · exact (toggleHighlight_edited executed).updated
  · exact (zoom_edited executed).updated
  · exact (zoom_edited executed).updated
  · cases executed
    exact .refl

theorem handleMouseToolBar_updated {mouseOpt : MouseOpt}
    (handled : handleMouseToolBar manager x y mouseOpt outside = some next) :
    Updated manager next := by
  simp only [handleMouseToolBar] at handled
  split at handled
  · split at handled
    · cases handled
      exact .refl
    split at handled
    · exact buttonExecTool_updated handled
    · cases handled
      exact .refl
  · cases handled
    exact .refl

end

/-! ## The keyboard -/

section

variable {manager next : BufferManager}

theorem handleKeyboardFileBuffer_updated
    (handled : handleKeyboardFileBuffer manager id c faults = some next) :
    Updated manager next := by
  rw [handleKeyboardFileBuffer] at handled
  split at handled
  · exact fileBufferSaveFile_updated handled
  obtain ⟨buffer, read, ⟨edit, clipBoard⟩, edited, handled⟩ := bind₂_eq_some_iff.mp handled
  rw [some.injEq] at handled
  have kept := congrArg frame (handleKeyboardTextEdit_area edited)
  exact handled ▸ Edited.updated ((Change.file read kept).edited.tail (.clipBoard clipBoard))

/-- In the search frame every key but `ENTER` stays in its edit. -/
theorem handleKeyboardSearchFrame_edited (notEnter : c ≠ enter)
    (handled : handleKeyboardSearchFrame manager id c = some next) : Edited manager next := by
  rw [handleKeyboardSearchFrame, if_neg notEnter] at handled
  obtain ⟨⟨edit, clipBoard⟩, edited, handled⟩ := bind_eq_some_iff.mp handled
  rw [some.injEq] at handled
  have kept := congrArg frame (handleKeyboardTextEdit_area edited)
  exact handled ▸ (Change.search kept).edited.tail (.clipBoard clipBoard)

variable {table : PinyinTable}

theorem handleKeyboardPinyinInput_edited
    (handled : handleKeyboardPinyinInput table manager c = some (some next)) :
    Edited manager next := by
  obtain ⟨row, -, handled⟩ := bind_eq_some_iff.mp handled
  split_ifs at handled
  · cases handled
  · obtain ⟨⟨pinyin, clipBoard⟩, -, updated, -, handled⟩ := bind₂_eq_some_iff.mp handled
    cases handled
    exact (Change.pinyin updated).edited.tail (.clipBoard clipBoard)
  · split at handled
    · obtain ⟨typed, modified, pinyin, -, handled⟩ := bind₂_eq_some_iff.mp handled
      cases handled
      exact (modifyText_edited modified).tail (.pinyin pinyin)
    · cases handled
  · cases handled

theorem offerPinyin_edited (taken : offerPinyin table manager c = some (some next)) :
    Edited manager next := by
  rw [offerPinyin] at taken
  split at taken
  · exact handleKeyboardPinyinInput_edited taken
  · cases taken

theorem togglePinyin_edited (manager : BufferManager) : Edited manager (togglePinyin manager) :=
  (Change.pinyin _).edited.tail (.status _)

/-- What a key to the bar can do: switch to another tab, toggle the search frame,
search, type into the search frame, or go to the current file. -/
inductive BarKey (manager : BufferManager) (c : Int) : BufferManager → Prop
  | switched {fileSwitch : FileSwitchBar} (isTab : c = tab)
      (called : fileSwitchBarHandleTab manager.fileSwitch = some fileSwitch) :
      BarKey manager c { manager with fileSwitch := fileSwitch }
  | toggled (isCtrlF : c = ctrlF) : BarKey manager c (toggleSearch manager)
  | searched {file : Nat} {next : BufferManager} (isEnter : c = enter)
      (current : manager.fileSwitch.current = some file)
      (searchInput : manager.fileSwitch.searchInput = true)
      (called : searchCurrent manager file = some next) : BarKey manager c next
  | typed {next : BufferManager} (notTab : c ≠ tab) (notCtrlF : c ≠ ctrlF)
      (noSearch : c = enter → manager.fileSwitch.current = none)
      (edited : Edited manager next) : BarKey manager c next
  | file {next : BufferManager} (notTab : c ≠ tab) (notCtrlF : c ≠ ctrlF)
      (noInput : manager.fileSwitch.searchInput ≠ true)
      (updated : Updated manager next) : BarKey manager c next

theorem handleKeyboardFileSwitchBar_barKey
    (handled : handleKeyboardFileSwitchBar manager c faults = some next) :
    BarKey manager c next := by
  rw [handleKeyboardFileSwitchBar] at handled
  by_cases isTab : c = tab
  · rw [if_pos isTab] at handled
    obtain ⟨fileSwitch, called, rfl⟩ := map_eq_some_iff.mp handled
    exact .switched isTab called
  rw [if_neg isTab] at handled
  by_cases isCtrlF : c = ctrlF
  · rw [if_pos isCtrlF] at handled
    cases handled
    exact .toggled isCtrlF
  rw [if_neg isCtrlF] at handled
  split at handled
  · rename_i noCurrent
    rw [some.injEq] at handled
    exact .typed isTab isCtrlF (fun _ => noCurrent) (handled ▸ .refl)
  · rename_i file current
    split at handled
    · rename_i searchInput
      by_cases isEnter : c = enter
      · rw [handleKeyboardSearchFrame, if_pos isEnter] at handled
        exact .searched isEnter current searchInput handled
      · exact .typed isTab isCtrlF (fun same => absurd same isEnter)
          (handleKeyboardSearchFrame_edited isEnter handled)
    · rename_i noInput
      exact .file isTab isCtrlF noInput (handleKeyboardFileBuffer_updated handled)

/-- What a key can do, by the component that takes it: the pinyin input, the name
that is being renamed, the bar, or none of them. -/
inductive Keyed (table : PinyinTable) (manager : BufferManager) (c : Int) :
    BufferManager → Prop
  | pinyin {next : BufferManager} (notTab : c ≠ tab) (notCtrlF : c ≠ ctrlF)
      (taken : c = enter → offerPinyin table (manager.setStatus "") c ≠ some none)
      (edited : Edited manager next) : Keyed table manager c next
  | name {next : BufferManager} (inList : manager.focus = some .fileList)
      (edited : Edited manager next) : Keyed table manager c next
  | bar {next : BufferManager} (inBar : manager.focus = some .fileSwitch)
      (notTaken : offerPinyin table (manager.setStatus "") c = some none)
      (barKey : BarKey (manager.setStatus "") c next) : Keyed table manager c next
  | other {next : BufferManager}
      (notRenaming : ¬ (manager.isRename = true ∧ manager.focus = some .fileList))
      (notInBar : manager.focus ≠ some .fileSwitch)
      (updated : Updated manager next) : Keyed table manager c next

/-- A key that the pinyin input takes is one of its keys. -/
theorem pinyinKey_of_taken (taken : offerPinyin table manager c = some (some next)) :
    pinyinKey c = true := by
  rw [offerPinyin] at taken
  split at taken
  · rename_i isOn
    exact isOn.2
  · cases taken

theorem handleKeyboardBufferManager_keyed
    (handled : handleKeyboardBufferManager table manager c outside = some next) :
    Keyed table manager c next := by
  have cleared : Edited manager (manager.setStatus "") := (Change.status "").edited
  simp only [handleKeyboardBufferManager] at handled
  by_cases isCtrlP : c = ctrlP
  · subst isCtrlP
    rw [if_pos rfl, some.injEq] at handled
    have notEnter : ctrlP ≠ enter := by decide
    exact handled ▸ .pinyin (by decide) (by decide) (fun same => absurd same notEnter)
      (cleared.trans (togglePinyin_edited _))
  rw [if_neg isCtrlP] at handled
  obtain ⟨offered, offer, handled⟩ := bind_eq_some_iff.mp handled
  cases offered with
  | some taken =>
    cases handled
    have isKey := pinyinKey_of_taken offer
    refine .pinyin ?_ ?_ (fun _ notTaken => ?_) (cleared.trans (offerPinyin_edited offer))
    · rintro rfl
      exact absurd isKey (by decide)
    · rintro rfl
      exact absurd isKey (by decide)
    · rw [notTaken] at offer
      cases offer
  | none =>
    simp only [dispatchKey] at handled
    split_ifs at handled with renames inBar isDelete
    · exact .name renames.2 (cleared.trans (handleKeyboardFileListBuffer_edited handled))
    · exact .bar inBar offer (handleKeyboardFileSwitchBar_barKey handled)
    · exact .other renames inBar (cleared.updated.trans (deleteSelected_updated handled))
    · rw [some.injEq] at handled
      exact .other renames inBar (handled ▸ cleared.updated)

end

/-! ## Drawing -/

section

variable {manager next : BufferManager}

theorem frame_scrollToCursor (parent : Area) (text : Textframe) (cursorWidth width height : Int)
    (tries : Nat) (own : Area) :
    frame (scrollToCursor parent text cursorWidth width height tries own) = frame own := by
  induction tries generalizing own with
  | zero => rfl
  | succ tries ih =>
    simp only [scrollToCursor]
    split
    · rw [ih]
      rfl
    · rfl

theorem frame_drawTextEdit (edit : TextEdit) (parent : Area) (focused : Bool) :
    frame (drawTextEdit edit parent focused).area = frame edit.area := by
  rw [drawTextEdit]
  split
  · exact frame_scrollToCursor ..
  · rfl

theorem drawFileNames_edited {area : Area} {files : List Nat}
    (drawn : drawFileNames manager area files = some next) : Edited manager next := by
  induction files generalizing manager with
  | nil =>
    cases drawn
    exact .refl
  | cons id rest ih =>
    obtain ⟨control, read, drawn⟩ := bind_eq_some_iff.mp drawn
    exact (Change.control read _).edited.trans (ih drawn)

theorem drawCurrent_edited {area : Area} (drawn : drawCurrent manager area = some next) :
    Edited manager next := by
  rw [drawCurrent] at drawn
  split at drawn
  · cases drawn
    exact .refl
  rename_i id _
  obtain ⟨buffer, read, drawn⟩ := bind_eq_some_iff.mp drawn
  have scrolled := (Change.file read (frame_drawTextEdit buffer.edit
    (calcCurrentArea area buffer.area) (manager.cursorFocus = some (.file id)))).edited
  simp only at drawn
  split at drawn
  · cases drawn
    exact scrolled.tail (.search (frame_drawTextEdit ..))
  · cases drawn
    exact scrolled

end

end XEditor.Gui
