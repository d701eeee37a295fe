import XEditor.Gui.FileList

/-!
# The file switch bar

The tabs of the open files with the text of the current one and the search
frame.  The arrays of the bar are read with a check: `none` is a null pointer
that is followed, or an access outside of an array.
-/

namespace XEditor.Gui

open Edit Kernel Text

/-- What an event depends on besides the state: the memory of a new `TextEdit`,
the type that `File_isDir` finds in memory where `fstat` has failed, for each of
the three calls that an event can make, and the faults of the calls of
`write`. -/
structure Outside where
  edit : Unset
  renamed : Bool
  opened : Bool
  entered : Bool
  faults : Nat → Option Nat

/-! ## Tabs -/

/-- The loops over the tabs that stop at the first button with a property. -/
def findTab (manager : BufferManager) (hit : TabButton → Option Bool) :
    (left i : Nat) → Option (Option Nat)
  | 0, _ => some none
  | left + 1, i => do
    let id ← manager.fileSwitch.buttons[i]?.join
    let button ← manager.tabButtons[id]?
    if ← hit button then some (some i) else findTab manager hit left (i + 1)

/-- The index at which a loop over the tabs finds a button. -/
def tabOf (fileSwitch : FileSwitchBar) (id : Nat) : Option Nat :=
  (fileSwitch.buttons.take fileSwitch.nFiles).findIdx? (· = some id)

/-- Source `Button_exec_switch_to_file`. -/
def buttonExecSwitchToFile (manager : BufferManager) (id : Nat) : Option BufferManager :=
  match tabOf manager.fileSwitch id with
  | none => some manager
  | some i => do
    let file ← manager.fileSwitch.files[i]?.join
    let manager :=
      { manager with fileSwitch := { manager.fileSwitch with current := some file } }
    some (manager.focusOn (.file file) .textEdit)

/-- The loop of `handle_close_Button` that moves the entries of an array down by
one. -/
def shiftLoop : (left j : Nat) → (slots : List (Option Nat)) → Option (List (Option Nat))
  | 0, _, slots => some slots
  | left + 1, j, slots => do
    let next ← slots[j + 1]?
    shiftLoop left (j + 1) (slots.set j next)

/-- What `handle_close_Button` does to the bar when it closes the tab at an
index. -/
def closeTab (fileSwitch : FileSwitchBar) (i : Nat) : Option FileSwitchBar :=
  if i = fileSwitch.nFiles - 1 then
    if i = 0 then
      some { fileSwitch with current := none, nFiles := fileSwitch.nFiles - 1 }
    else do
      let file ← fileSwitch.files[i - 1]?
      some { fileSwitch with current := file, nFiles := fileSwitch.nFiles - 1 }
  else do
    let files ← shiftLoop (fileSwitch.nFiles - i) i fileSwitch.files
    let buttons ← shiftLoop (fileSwitch.nFiles - i) i fileSwitch.buttons
    let file ← files[i]?
    some { fileSwitch with
      files := files
      buttons := buttons
      current := file
      nFiles := fileSwitch.nFiles - 1 }

/-- Source `handle_close_Button` for a button of the bar. -/
def handleCloseButton (manager : BufferManager) (id : Nat) (button : TabButton) :
    Option BufferManager :=
  match tabOf manager.fileSwitch id with
  | none => some manager
  | some i => do
    let file ← manager.fileSwitch.files[i]?.join
    let buffer ← manager.buffers[file]?
    let fileSwitch ← closeTab manager.fileSwitch i
    some { manager.setEdit file buffer { buffer.edit with text := lineEditSetStr [] } with
      fileSwitch := fileSwitch
      tabButtons := manager.tabButtons.set id { button with
        edit := { button.edit with text := lineEditSetStr [] } } }

/-- Source `handle_mouse_Button` for a button of the bar.  Its `exec` is set,
and its parent is the bar. -/
def handleMouseTabButton (manager : BufferManager) (id : Nat) (button : TabButton)
    (mouseOpt : MouseOpt) : Option BufferManager :=
  if mouseOpt = .leftPress ∧ button.exec = some .switchToFile then
    buttonExecSwitchToFile manager id
  else if mouseOpt = .rightPress ∧ button.parentType = .fileSwitchBar then
    handleCloseButton manager id button
  else some manager

/-- Source `FileSwitchBar_handle_tab`: the current tab is searched by its
file. -/
def fileSwitchBarHandleTab (fileSwitch : FileSwitchBar) : Option FileSwitchBar :=
  match (fileSwitch.files.take fileSwitch.nFiles).findIdx? (· = fileSwitch.current) with
  | none => some fileSwitch
  | some i => do
    let file ← fileSwitch.files[(i + 1) % fileSwitch.nFiles]?
    some { fileSwitch with current := file }

/-! ## Opening files and directories -/

/-- Source `FileSwitchBar_find_file`; the index of the tab found. -/
def fileSwitchBarFindFile (manager : BufferManager) (filename : Name) : Option (Option Nat) :=
  findTab manager (fun button => (button.edit.text.line? 0).map fun label => label = filename)
    manager.fileSwitch.nFiles 0

/-- A new button of the bar with its label, as `FileSwitchBar_open_file` makes
it. -/
def tabButtonFor (filename : Name) : TabButton where
  toButton := { makeButton .fileSwitchBar with
    exec := some .switchToFile
    edit := { makeLineEdit with text := lineEditSetStr filename } }
  switches := rfl
  inBar := rfl

/-- A new tab for a file whose text has been read, with the focus on it. -/
def addTab (manager : BufferManager) (filename : Name) (outside : Outside) (kernel : State)
    (text : Textframe) : BufferManager :=
  let buffer := { makeFileBuffer outside.edit with
    filepathname := manager.fileList.path ++ filename }
  let file := manager.buffers.length
  let manager := { manager with
    kernel := kernel
    tabButtons := manager.tabButtons ++ [tabButtonFor filename]
    buffers := manager.buffers ++ [{ buffer with edit := { buffer.edit with text := text } }]
    fileSwitch := { manager.fileSwitch with
      buttons := manager.fileSwitch.buttons.set manager.fileSwitch.nFiles
        (some manager.tabButtons.length)
      files := manager.fileSwitch.files.set manager.fileSwitch.nFiles (some file)
      current := some file
      nFiles := manager.fileSwitch.nFiles + 1 } }
  manager.focusOn (.file file) .textEdit

/-- The first branch of `FileSwitchBar_open_file`, with `FileBuffer_open_file`:
a new tab for a file. -/
def openTab (manager : BufferManager) (filename : Name) (outside : Outside) :
    Option BufferManager := do
  let (kernel, text, _) ← textframeReadFile manager.kernel (makeFileBuffer outside.edit).edit.text
    (manager.fileList.path ++ filename)
  some (addTab manager filename outside kernel text)

/-- The path of the file list after a click on a directory. -/
def enteredPath (path : Path) (filename : Name) : Path :=
  if filename = dotName then path
  else if filename = dotDotName then []
  else path ++ filename ++ [slash]

/-- The second branch of `FileSwitchBar_open_file`: the list of another
directory. -/
def enterDirectory (manager : BufferManager) (filename : Name) : Option BufferManager :=
  fileListBufferUpdateFileList { manager with
    fileList := { manager.fileList with
      path := enteredPath manager.fileList.path filename } }

/-- The first condition of `FileSwitchBar_open_file`: there is room for a tab,
and the name is not one of a directory. -/
def canOpenTab (manager : BufferManager) (filename : Name) (unset : Bool) :
    Option (State × Bool) :=
  if manager.fileSwitch.nFiles < fileswitchMaxFiles then
    (fileIsDir manager.kernel filename unset).map fun result => (result.1, !result.2)
  else some (manager.kernel, false)

/-- `FileSwitchBar_open_file` for a file without a tab. -/
def openNew (manager : BufferManager) (filename : Name) (outside : Outside) :
    Option BufferManager := do
  let (kernel, isFile) ← canOpenTab manager filename outside.opened
  let manager := { manager with kernel := kernel }
  if isFile = true then openTab manager filename outside
  else do
    let (kernel, isDir) ← fileIsDir manager.kernel filename outside.entered
    let manager := { manager with kernel := kernel }
    if isDir = true then enterDirectory manager filename else some manager

/-- Source `FileSwitchBar_open_file`. -/
def fileSwitchBarOpenFile (manager : BufferManager) (filename : Name) (outside : Outside) :
    Option BufferManager := do
  match ← fileSwitchBarFindFile manager filename with
  | some i =>
    let file ← manager.fileSwitch.files[i]?
    some { manager with fileSwitch := { manager.fileSwitch with current := file } }
  | none => openNew manager filename outside

/-! ## Mouse -/

/-- The assignment of `cursor_focus` in `handle_mouse_TextEdit`. -/
def mouseFocus (manager : BufferManager) (ref : EditRef) (mouseOpt : MouseOpt) : BufferManager :=
  if mouseOpt = .move then manager else manager.focusOn ref .textEdit

/-- Source `handle_mouse_SearchFrame`. -/
def handleMouseSearchFrame (manager : BufferManager) (x y : Int) (mouseOpt : MouseOpt) :
    Option BufferManager := do
  let edit ← handleMouseTextEdit manager.fileSwitch.search.edit x y mouseOpt
  some (mouseFocus (manager.setSearchEdit edit) .search mouseOpt)

/-- Source `handle_mouse_FileBuffer`. -/
def handleMouseFileBuffer (manager : BufferManager) (id : Nat) (buffer : FileBuffer) (x y : Int)
    (mouseOpt : MouseOpt) : Option BufferManager := do
  let position := mousePosTransform buffer.area x y
  let edit ← handleMouseTextEdit buffer.edit position.1 position.2 mouseOpt
  some (mouseFocus (manager.setEdit id buffer edit) (.file id) mouseOpt)

/-- The tab under the mouse when a button is pressed. -/
def pressedTab (manager : BufferManager) (x y : Int) (mouseOpt : MouseOpt) :
    Option (Option Nat) :=
  if mouseOpt = .leftPress ∨ mouseOpt = .rightPress then
    findTab manager (fun button => some (isPosInArea button.area x y))
      manager.fileSwitch.nFiles 0
  else some none

/-- Whether the mouse is over the search frame, when it is shown. -/
def overSearch (fileSwitch : FileSwitchBar) (x y : Int) : Bool :=
  fileSwitch.ifSearch && isPosInArea fileSwitch.search.area x y

/-- `handle_mouse_FileSwitchBar` when no tab is pressed. -/
def handleMouseBelowTabs (manager : BufferManager) (x y : Int) (mouseOpt : MouseOpt) :
    Option BufferManager :=
  match manager.fileSwitch.current with
  | none => some manager
  | some id =>
    if overSearch manager.fileSwitch x y = true then
      handleMouseSearchFrame
        { manager with fileSwitch := { manager.fileSwitch with searchInput := true } }
        x y mouseOpt
    else do
      let buffer ← manager.buffers[id]?
      if isPosInArea buffer.area x y = true then
        handleMouseFileBuffer manager id buffer x y mouseOpt
      else some manager

/-- Source `handle_mouse_FileSwitchBar`. -/
def handleMouseFileSwitchBar (manager : BufferManager) (x y : Int) (mouseOpt : MouseOpt) :
    Option BufferManager := do
  let position := mousePosTransform manager.fileSwitch.area x y
  match ← pressedTab manager position.1 position.2 mouseOpt with
  | some i =>
    let id ← manager.fileSwitch.buttons[i]?.join
    let button ← manager.tabButtons[id]?
    handleMouseTabButton manager id button mouseOpt
  | none => handleMouseBelowTabs manager position.1 position.2 mouseOpt

/-! ## Keyboard -/

/-- Source `handle_keyboard_FileBuffer`. -/
def handleKeyboardFileBuffer (manager : BufferManager) (id : Nat) (c : Int)
    (faults : Nat → Option Nat) : Option BufferManager :=
  if c = ctrlS then fileBufferSaveFile manager id faults
  else do
    let buffer ← manager.buffers[id]?
    let (edit, clipBoard) ← handleKeyboardTextEdit buffer.edit manager.clipBoard c
    some { manager.setEdit id buffer edit with clipBoard := clipBoard }

/-- `case ENTER` of `handle_keyboard_SearchFrame`, with a current file. -/
def searchCurrent (manager : BufferManager) (id : Nat) : Option BufferManager := do
  let buffer ← manager.buffers[id]?
  let pattern ← manager.fileSwitch.search.edit.text.line? 0
  let (edit, found) ← searchSelect buffer.edit pattern
  if found then some ((manager.setEdit id buffer edit).focusOn (.file id) .textEdit)
  else some ((manager.setEdit id buffer edit).setStatus "No results.")

/-- Source `handle_keyboard_SearchFrame`, with a current file. -/
def handleKeyboardSearchFrame (manager : BufferManager) (id : Nat) (c : Int) :
    Option BufferManager :=
  if c = enter then searchCurrent manager id
  else do
    let (edit, clipBoard) ←
      handleKeyboardTextEdit manager.fileSwitch.search.edit manager.clipBoard c
    some { manager.setSearchEdit edit with clipBoard := clipBoard }

/-- Source `move_to_end`. -/
def moveToEnd (text : Textframe) : Textframe :=
  moveToPos text intMax intMax

/-- `case CTRL_F` of `handle_keyboard_FileSwitchBar`. -/
def toggleSearch (manager : BufferManager) : BufferManager :=
  let edit := manager.fileSwitch.search.edit
  let manager := manager.setSearchEdit { edit with text := moveToEnd edit.text }
  let manager := { manager with
    fileSwitch := { manager.fileSwitch with
      ifSearch := !manager.fileSwitch.ifSearch
      searchInput := true } }
  manager.focusOn .search .lineEdit

/-- Source `handle_keyboard_FileSwitchBar`. -/
def handleKeyboardFileSwitchBar (manager : BufferManager) (c : Int)
    (faults : Nat → Option Nat) : Option BufferManager :=
  if c = tab then
    (fileSwitchBarHandleTab manager.fileSwitch).map fun fileSwitch =>
      { manager with fileSwitch := fileSwitch }
  else if c = ctrlF then some (toggleSearch manager)
  else
    match manager.fileSwitch.current with
    | none => some manager
    | some id =>
      if manager.fileSwitch.searchInput = true then handleKeyboardSearchFrame manager id c
      else handleKeyboardFileBuffer manager id c faults

end XEditor.Gui
