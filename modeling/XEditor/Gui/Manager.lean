import XEditor.Gui.FileSwitch
import XEditor.Gui.Pinyin

/-!
# The buffer manager

The root of the window: it hands mouse and keyboard messages on to its
components.  The drawing functions are modelled as far as they change a
component; what they put on the screen is left out.
-/

namespace XEditor.Gui

open Edit Kernel Text

/-! ## The tool bar -/

/-- The labels that `draw_ToolBar` gives to the buttons. -/
def tools : List String :=
  ["New File", "New Folder", "Save", "Highlight", "Zoom In", "Zoom Out"]

/-- The button `New File`. -/
def newFile (manager : BufferManager) : Option BufferManager := do
  let (kernel, fd) ← sysOpen manager.kernel (manager.fileList.path ++ ascii "New File") oCreate
  fileListBufferUpdateFileList { manager with kernel := (sysClose kernel fd).1 }

/-- The lowest bit of an `int` changed. -/
def flipLowest (n : Int) : Int :=
  if n % 2 = 0 then n + 1 else n - 1

/-- An edit with the other mode of highlighting, and the message for it. -/
def flipHighlight (edit : TextEdit) : TextEdit × String :=
  let highlightOn := flipLowest edit.highlightOn
  ({ edit with highlightOn := highlightOn },
    if highlightOn ≠ 0 then "Highlight Mode On" else "Highlight Mode Off")

/-- The button `Highlight`. -/
def toggleHighlight (manager : BufferManager) : Option BufferManager :=
  match manager.cursorFocus, manager.cursorFocusType with
  | some .search, .textEdit =>
    let result := flipHighlight manager.fileSwitch.search.edit
    some ((manager.setSearchEdit result.1).setStatus result.2)
  | some (.file id), .textEdit => do
    let buffer ← manager.buffers[id]?
    let result := flipHighlight buffer.edit
    some ((manager.setEdit id buffer result.1).setStatus result.2)
  | some (.control _), .textEdit => none
  | _, _ => some manager

/-- Source `MIN_SCALE`. -/
def minScale : Int := 0

/-- Source `MAX_SCALE`. -/
def maxScale : Int := 2

/-- The buttons `Zoom In` and `Zoom Out`, which do nothing without a current
file. -/
def zoom (manager : BufferManager) (allowed : Int → Bool) (delta : Int) (message : String) :
    Option BufferManager :=
  match manager.fileSwitch.current with
  | none => some manager
  | some id => do
    let buffer ← manager.buffers[id]?
    if allowed buffer.edit.scale = true then
      some (manager.setEdit id buffer { buffer.edit with scale := buffer.edit.scale + delta })
    else some (manager.setStatus message)

/-- The button `Save`. -/
def saveCurrent (manager : BufferManager) (faults : Nat → Option Nat) : Option BufferManager :=
  match manager.fileSwitch.current with
  | none => some manager
  | some id => fileBufferSaveFile manager id faults

/-- Source `Button_exec_tool`: the label decides. -/
def buttonExecTool (manager : BufferManager) (button : Button) (outside : Outside) :
    Option BufferManager := do
  let name ← button.edit.text.line? 0
  if name = ascii "New File" then newFile manager
  else if name = ascii "New Folder" then fileListBufferUpdateFileList manager
  else if name = ascii "Save" then saveCurrent manager outside.faults
  else if name = ascii "Highlight" then toggleHighlight manager
  else if name = ascii "Zoom In" then
    zoom manager (fun scale => scale < maxScale) 1 "Already Max Size"
  else if name = ascii "Zoom Out" then
    zoom manager (fun scale => scale > minScale) (-1) "Already Min Size"
  else some manager

/-- Source `handle_mouse_ToolBar`. -/
def handleMouseToolBar (manager : BufferManager) (x y : Int) (mouseOpt : MouseOpt)
    (outside : Outside) : Option BufferManager :=
  let position := mousePosTransform manager.toolBar.area x y
  if mouseOpt = .leftPress then
    match manager.toolBar.buttons.find? fun button =>
        isPosInArea button.area position.1 position.2 with
    | none => some manager
    | some button =>
      if button.exec = some .tool then buttonExecTool manager button outside else some manager
  else some manager

/-! ## Mouse -/

/-- Source `handle_mouse_FileListBuffer`, from an index on. -/
def handleMouseFiles (manager : BufferManager) (x y : Int) (mouseOpt : MouseOpt)
    (outside : Outside) : (files : List Nat) → Option BufferManager
  | [] => some manager
  | id :: rest => do
    let control ← manager.controls[id]?
    if isPosInArea control.area x y = true then
      let manager :=
        { manager with fileList := { manager.fileList with fileSelected := some id } }
      match mouseOpt with
      | .leftPress => do
        let filename ← control.edit.text.line? 0
        fileSwitchBarOpenFile manager filename outside
      | .rightPress => handleMouseFileNameControl { manager with isRename := true } id x y
      | _ => handleMouseFiles manager x y mouseOpt outside rest
    else handleMouseFiles manager x y mouseOpt outside rest

/-- Source `handle_mouse_FileListBuffer`. -/
def handleMouseFileListBuffer (manager : BufferManager) (x y : Int) (mouseOpt : MouseOpt)
    (outside : Outside) : Option BufferManager :=
  let position := mousePosTransform manager.fileList.area x y
  handleMouseFiles manager position.1 position.2 mouseOpt outside manager.fileList.files

/-- The part of `handle_mouse_BufferManager` that ends a renaming when the mouse
is somewhere else. -/
def finishRename (manager : BufferManager) (x y : Int) (unset : Bool) : Option BufferManager :=
  match manager.isRename, manager.fileList.fileSelected with
  | true, some id => do
    let control ← manager.controls[id]?
    let position := mousePosTransform manager.fileList.area x y
    if isPosInArea control.area position.1 position.2 = true then some manager
    else renameFileNameControl manager id unset
  | _, _ => some manager

/-- The part of `handle_mouse_BufferManager` that forgets the selection in the
current file. -/
def clearCurrentSelection (manager : BufferManager) : Option BufferManager :=
  match manager.fileSwitch.current with
  | none => some manager
  | some id => do
    let buffer ← manager.buffers[id]?
    some (manager.setEdit id buffer (clearPoint2 buffer.edit))

/-- The last part of `handle_mouse_BufferManager`: the component under the mouse
gets the focus and the message. -/
def dispatchMouse (manager : BufferManager) (x y : Int) (mouseOpt : MouseOpt)
    (outside : Outside) : Option BufferManager :=
  if isPosInArea manager.fileSwitch.area x y = true then
    handleMouseFileSwitchBar { manager with focus := some .fileSwitch } x y mouseOpt
  else if isPosInArea manager.fileList.area x y = true then
    handleMouseFileListBuffer { manager with focus := some .fileList } x y mouseOpt outside
  else if isPosInArea manager.toolBar.area x y = true then
    handleMouseToolBar { manager with focus := some .toolBar } x y mouseOpt outside
  else some manager

/-- Whether a mouse message goes to the file switch bar without a look at where
the mouse is. -/
def dragsText (manager : BufferManager) (mouseOpt : MouseOpt) : Bool :=
  mouseOpt = .move && manager.cursorFocus.isSome && manager.cursorFocusType = .textEdit

/-- Source `handle_mouse_BufferManager`. -/
def handleMouseBufferManager (manager : BufferManager) (x y : Int) (mouseOpt : MouseOpt)
    (outside : Outside) : Option BufferManager :=
  let position := mousePosTransform manager.area x y
  let manager := { manager with fileSwitch := { manager.fileSwitch with searchInput := false } }
  if dragsText manager mouseOpt = true then
    handleMouseFileSwitchBar manager position.1 position.2 mouseOpt
  else do
    let manager ← finishRename manager position.1 position.2 outside.renamed
    let manager ← clearCurrentSelection manager
    dispatchMouse manager position.1 position.2 mouseOpt outside

/-! ## Keyboard -/

/-- The keys that are offered to the pinyin input when it is on. -/
def pinyinKey (c : Int) : Bool :=
  isLetter c || decide (48 ≤ c ∧ c ≤ 57) ||
    decide (c = enter ∨ c = backspace ∨ c = comma ∨ c = period ∨ c = apostrophe)

/-- `CTRL_P` switches the pinyin input on and off. -/
def togglePinyin (manager : BufferManager) : BufferManager :=
  let on := !manager.pinyin.on
  { manager with pinyin := { manager.pinyin with on := on } }.setStatus
    (if on then "Chinese" else "English")

/-- `DELETE` removes the selected file. -/
def deleteSelected (manager : BufferManager) : Option BufferManager :=
  match manager.fileList.fileSelected with
  | none => some manager
  | some id => do
    let control ← manager.controls[id]?
    let filename ← control.edit.text.line? 0
    let (kernel, _) ← sysUnlink manager.kernel filename
    fileListBufferUpdateFileList { manager with kernel := kernel }

/-- What the pinyin input makes of a key: nothing, when it is off or does not
take the key. -/
def offerPinyin (table : PinyinTable) (manager : BufferManager) (c : Int) :
    Option (Option BufferManager) :=
  if manager.pinyin.on = true ∧ pinyinKey c = true then handleKeyboardPinyinInput table manager c
  else some none

/-- `handle_keyboard_BufferManager` for a key that the pinyin input does not
take. -/
def dispatchKey (manager : BufferManager) (c : Int) (faults : Nat → Option Nat) :
    Option BufferManager :=
  if manager.isRename = true ∧ manager.focus = some .fileList then
    handleKeyboardFileListBuffer manager c
  else if manager.focus = some .fileSwitch then handleKeyboardFileSwitchBar manager c faults
  else if c = delete then deleteSelected manager
  else some manager

/-- Source `handle_keyboard_BufferManager`. -/
def handleKeyboardBufferManager (table : PinyinTable) (manager : BufferManager) (c : Int)
    (outside : Outside) : Option BufferManager :=
  let manager := manager.setStatus ""
  if c = ctrlP then some (togglePinyin manager)
  else do
    match ← offerPinyin table manager c with
    | some manager => some manager
    | none => dispatchKey manager c outside.faults

/-! ## Drawing -/

/-- What `draw_FileListBuffer` changes. -/
def drawFileNames (manager : BufferManager) (area : Area) : (files : List Nat) →
    Option BufferManager
  | [] => some manager
  | id :: rest => do
    let control ← manager.controls[id]?
    let edit := drawLineEdit control.edit (calcCurrentArea area control.area)
      (manager.cursorFocus = some (.control id))
    drawFileNames (manager.setControlEdit id control edit) area rest

/-- The loop of `draw_FileSwitchBar` that places the tabs side by side. -/
def placeTabs : (left i : Nat) → (x : Int) → (manager : BufferManager) → Option BufferManager
  | 0, _, _, manager => some manager
  | left + 1, i, x, manager => do
    let id ← manager.fileSwitch.buttons[i]?.join
    let button ← manager.tabButtons[id]?
    placeTabs left (i + 1) (x + button.area.width) { manager with
      tabButtons := manager.tabButtons.set id { button with
        area := { button.area with x := x } } }

/-- What `draw_FileBuffer` and `draw_SearchFrame` change. -/
def drawCurrent (manager : BufferManager) (area : Area) : Option BufferManager :=
  match manager.fileSwitch.current with
  | none => some manager
  | some id => do
    let buffer ← manager.buffers[id]?
    let edit := drawTextEdit buffer.edit (calcCurrentArea area buffer.area)
      (manager.cursorFocus = some (.file id))
    let manager := manager.setEdit id buffer edit
    if manager.fileSwitch.ifSearch = true then
      let search := manager.fileSwitch.search
      some (manager.setSearchEdit (drawTextEdit search.edit (calcCurrentArea area search.area)
        (manager.cursorFocus = some .search)))
    else some manager

/-- What `draw_ToolBar` makes of its buttons, from one on. -/
def drawTools : (x : Int) → List Button → List String → List Button
  | x, button :: buttons, label :: labels =>
    { button with
      area := { button.area with x := x }
      exec := some .tool
      edit := { button.edit with text := lineEditSetStr (ascii label) } } ::
    drawTools (x + button.area.width) buttons labels
  | _, buttons, _ => buttons

/-- The area `main` draws in. -/
def screen : Area := ⟨0, 0, 800, 600, 0, 0⟩

/-- What `draw_BufferManager` changes.  The edits of the pinyin input, the
status bar and the buttons never have the cursor focus, so drawing leaves them
as they are. -/
def drawBufferManager (manager : BufferManager) : Option BufferManager := do
  let area := calcCurrentArea screen manager.area
  let manager ← drawFileNames manager (calcCurrentArea area manager.fileList.area)
    manager.fileList.files
  let manager ← placeTabs manager.fileSwitch.nFiles 0 0 manager
  let manager ← drawCurrent manager (calcCurrentArea area manager.fileSwitch.area)
  some { manager with
    toolBar := { manager.toolBar with buttons := drawTools 0 manager.toolBar.buttons tools } }

/-! ## The program -/

/-- Source `make_BufferManager`, with the memory of the two edits it makes. -/
def makeBufferManager (kernel : State) (search pinyin : Unset) : Option BufferManager := do
  let pinyin ← makePinyinInput pinyin
  fileListBufferUpdateFileList {
    area := ⟨0, 0, 800, 600, 0, 0⟩
    fileList := ⟨⟨10, 30, 90, 570, 0, 0⟩, [], none, []⟩
    fileSwitch := makeFileSwitchBar search
    toolBar := makeToolBar
    statusBar := makeStatusBar
    pinyin := pinyin
    focus := none
    clipBoard := none
    cursorFocus := none
    cursorFocusType := .lineEdit
    isRename := false
    controls := []
    buffers := []
    tabButtons := []
    kernel := kernel }

/-- The messages of the loop in `main`, which draws when there are none. -/
inductive Message where
  | mouse (x y : Int) (mouseOpt : MouseOpt) (outside : Outside)
  | keyboard (c : Int) (outside : Outside)
  | draw

/-- One round of the loop in `main`. -/
def BufferManager.step (table : PinyinTable) (manager : BufferManager) :
    Message → Option BufferManager
  | .mouse x y mouseOpt outside => handleMouseBufferManager manager x y mouseOpt outside
  | .keyboard c outside => handleKeyboardBufferManager table manager c outside
  | .draw => drawBufferManager manager

end XEditor.Gui
