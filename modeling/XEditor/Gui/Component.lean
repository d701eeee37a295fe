import XEditor.Edit.Events
import XEditor.Kernel.FileSystem

/-!
# The components of the editor's window

The records of `Gui.h`.  Components that are allocated while the program runs
(file names, open files, tabs) are numbered in the order of their allocation and
never freed, as in the source; a pointer to one is its number.  Parent pointers
are left out, as every component has a fixed place in the buffer manager.
-/

namespace XEditor.Gui

open Edit Kernel Text

/-! ## Areas -/

/-- Source `is_pos_in_area`. -/
def isPosInArea (area : Area) (x y : Int) : Bool :=
  decide (x ≥ area.x ∧ y ≥ area.y ∧ x < area.x + area.width ∧ y < area.y + area.height)

/-- Source `calc_current_area`. -/
def calcCurrentArea (parent area : Area) : Area :=
  let x := area.x - parent.offsetX
  let y := area.y - parent.offsetY
  let width := if parent.width - x > area.width then area.width else parent.width - x
  let height := if y < 0 then 0 else parent.height - y
  { x := parent.x + x
    y := parent.y + y
    width := if x < 0 then 0 else width
    height := if height > area.height then area.height else height
    offsetX := area.offsetX
    offsetY := area.offsetY }

/-- The loop by which the drawing functions scroll a focused edit until its
cursor is visible.  `parent` is the area of the parent on the screen and `own`
the area of the edit in it. -/
def scrollToCursor (parent : Area) (text : Textframe) (cursorWidth width height : Int) :
    (tries : Nat) → (own : Area) → Area
  | 0, own => own
  | tries + 1, own =>
    let area := calcCurrentArea parent own
    let cursor := calcCurrentArea area
      ⟨text.cursorCol * width, text.cursorRow * height, cursorWidth, height, 0, 0⟩
    if cursor.height ≤ 0 ∨ cursor.width ≤ 0 ∨ cursor.x < 0 ∨ cursor.y < 0 then
      scrollToCursor parent text cursorWidth width height tries
        { own with
          offsetX := max 0 (text.cursorCol * width - area.width + width)
          offsetY := max 0 (text.cursorRow * height - area.height + height) }
    else own

/-! ## Edits -/

/-- A text as the bytes of a C string. -/
def ascii (message : String) : Row :=
  message.toList.map fun char => UInt8.ofNat char.toNat

/-- Source `struct LineEdit`. -/
structure LineEdit where
  area : Area
  text : Textframe
  deriving DecidableEq, Repr

/-- Source `make_LineEdit`. -/
def makeLineEdit : LineEdit where
  area := ⟨0, 0, 100, 16, 0, 0⟩
  text := lineEditSetStr []

/-- The text part of `handle_mouse_LineEdit`. -/
def handleMouseLineEdit (edit : LineEdit) (x y : Int) : LineEdit :=
  let position := mousePosTransform edit.area x y
  { edit with text := moveToPos edit.text (position.2.tdiv 16) (position.1.tdiv 8) }

/-- What `handle_keyboard_LineEdit` does to its text. -/
def lineEditKey (text : Textframe) (c : Int) : Option Textframe :=
  if c = leftArrow then moveToPreviousChar text
  else if c = backspace then (moveToPreviousChar text).bind backspaceToStr
  else if c = rightArrow then moveToNextChar text
  else if 32 ≤ c ∧ c ≤ 126 then typeByte text (UInt8.ofNat c.toNat)
  else some text

/-- Source `handle_keyboard_LineEdit`. -/
def handleKeyboardLineEdit (edit : LineEdit) (c : Int) : Option LineEdit :=
  (lineEditKey edit.text c).map fun text => { edit with text := text }

/-- What `draw_LineEdit` changes. -/
def drawLineEdit (edit : LineEdit) (parent : Area) (focused : Bool) : LineEdit :=
  if focused then { edit with area := scrollToCursor parent edit.text 8 8 16 10 edit.area }
  else edit

/-- What `draw_TextEdit` changes. -/
def drawTextEdit (edit : TextEdit) (parent : Area) (focused : Bool) : TextEdit :=
  if focused then
    { edit with
      area := scrollToCursor parent edit.text 1 (fontWidth edit.scale) (fontHeight edit.scale)
        10 edit.area }
  else edit

/-! ## Components -/

/-- What the function pointer `exec` of a button points to. -/
inductive Exec where
  | switchToFile
  | tool
  deriving DecidableEq, Repr

/-- The components a button is made for. -/
inductive ButtonParent where
  | fileSwitchBar
  | toolBar
  deriving DecidableEq, Repr

/-- Source `struct Button`. -/
structure Button where
  area : Area
  edit : LineEdit
  parentType : ButtonParent
  exec : Option Exec
  deriving DecidableEq, Repr

/-- Source `make_Button`. -/
def makeButton (parentType : ButtonParent) : Button where
  area := ⟨0, 0, 100, 20, 0, 0⟩
  edit := makeLineEdit
  parentType := parentType
  exec := none

/-- A button of the file switch bar, whose `exec` is set as soon as it is
made. -/
structure TabButton extends Button where
  switches : exec = some .switchToFile
  inBar : parentType = .fileSwitchBar
  deriving DecidableEq, Repr

/-- Source `struct FileNameControl`. -/
structure FileNameControl where
  area : Area
  edit : LineEdit
  oldName : Path
  deriving DecidableEq, Repr

/-- Source `struct FileListBuffer`; `n_files` is the length of `files`. -/
structure FileListBuffer where
  area : Area
  files : List Nat
  fileSelected : Option Nat
  path : Path
  deriving DecidableEq, Repr

/-- Source `struct FileBuffer`. -/
structure FileBuffer where
  area : Area
  edit : TextEdit
  filepathname : Path
  deriving DecidableEq, Repr

/-- Source `make_FileBuffer`. -/
def makeFileBuffer (unset : Unset) : FileBuffer where
  area := ⟨0, 20, 700, 400, 0, 0⟩
  edit := { makeTextEdit unset (some .fileBuffer) with
    scale := 0
    area := ⟨0, 0, 700, 400, 0, 0⟩ }
  filepathname := []

/-- Source `struct SearchFrame`. -/
structure SearchFrame where
  area : Area
  edit : TextEdit
  deriving DecidableEq, Repr

/-- Source `make_SearchFrame`. -/
def makeSearchFrame (unset : Unset) : SearchFrame where
  area := ⟨500, 0, 200, 18, 0, 0⟩
  edit := makeTextEdit unset (some .searchFrame)

/-- Source `FILESWITCH_MAX_FILES`. -/
def fileswitchMaxFiles : Nat := 10

/-- Source `struct FileSwitchBar`; the entries of its two arrays are null
pointers, buttons and files. -/
structure FileSwitchBar where
  area : Area
  buttons : List (Option Nat)
  files : List (Option Nat)
  nFiles : Nat
  current : Option Nat
  ifSearch : Bool
  search : SearchFrame
  searchInput : Bool
  deriving DecidableEq, Repr

/-- Source `make_FileSwitchBar`. -/
def makeFileSwitchBar (unset : Unset) : FileSwitchBar where
  area := ⟨115, 23, 700, 700, 0, 0⟩
  buttons := List.replicate fileswitchMaxFiles none
  files := List.replicate fileswitchMaxFiles none
  nFiles := 0
  current := none
  ifSearch := false
  search := makeSearchFrame unset
  searchInput := false

/-- Source `struct ToolBar`. -/
structure ToolBar where
  area : Area
  buttons : List Button
  deriving DecidableEq, Repr

/-- Source `TOOL_NUM`. -/
def toolNum : Nat := 6

/-- Source `make_ToolBar`. -/
def makeToolBar : ToolBar where
  area := ⟨0, 0, 700, 30, 0, 0⟩
  buttons := List.replicate toolNum (makeButton .toolBar)

/-- Source `struct PinyinInput`. -/
structure PinyinInput where
  area : Area
  page : Int
  on : Bool
  edit : TextEdit
  deriving DecidableEq, Repr

/-- Source `make_pinyinInput`. -/
def makePinyinInput (unset : Unset) : Option PinyinInput := do
  let text ← newLineToEditor (lineEditSetStr [])
  some {
    area := ⟨600, 548, 200, 32, 0, 0⟩
    page := 0
    on := false
    edit := { makeTextEdit unset (some .pinyinInput) with
      area := ⟨0, 0, 200, 32, 0, 0⟩
      text := moveToPos text 0 0 } }

/-- Source `struct StatusBar`. -/
structure StatusBar where
  area : Area
  edit : LineEdit
  deriving DecidableEq, Repr

/-- Source `make_StatusBar`, with the widths `make_BufferManager` sets. -/
def makeStatusBar : StatusBar where
  area := ⟨0, 580, 800, 20, 0, 0⟩
  edit := { makeLineEdit with area := ⟨0, 0, 800, 16, 0, 0⟩ }

/-- The components that `focus` of the buffer manager can point to. -/
inductive Focus where
  | fileList
  | fileSwitch
  | toolBar
  deriving DecidableEq, Repr

/-- The edits that `cursor_focus` can point to. -/
inductive EditRef where
  | control (id : Nat)
  | search
  | file (id : Nat)
  deriving DecidableEq, Repr

/-- The values of `cursor_focus_type`. -/
inductive FocusType where
  | lineEdit
  | textEdit
  deriving DecidableEq, Repr

/-- Source `struct BufferManager`, with the static variables of `Gui.c`, the
components allocated so far and the state of the kernel. -/
structure BufferManager where
  area : Area
  fileList : FileListBuffer
  fileSwitch : FileSwitchBar
  toolBar : ToolBar
  statusBar : StatusBar
  pinyin : PinyinInput
  focus : Option Focus
  clipBoard : Option Textframe
  cursorFocus : Option EditRef
  cursorFocusType : FocusType
  isRename : Bool
  controls : List FileNameControl
  buffers : List FileBuffer
  tabButtons : List TabButton
  kernel : State
  deriving DecidableEq, Repr

namespace BufferManager

/-- Let `cursor_focus` point to an edit. -/
def focusOn (manager : BufferManager) (ref : EditRef) (type : FocusType) : BufferManager :=
  { manager with cursorFocus := some ref, cursorFocusType := type }

/-- Replace the edit of an open file. -/
def setEdit (manager : BufferManager) (id : Nat) (buffer : FileBuffer) (edit : TextEdit) :
    BufferManager :=
  { manager with buffers := manager.buffers.set id { buffer with edit := edit } }

/-- Replace the edit of the search frame. -/
def setSearchEdit (manager : BufferManager) (edit : TextEdit) : BufferManager :=
  { manager with
    fileSwitch := { manager.fileSwitch with
      search := { manager.fileSwitch.search with edit := edit } } }

/-- Replace the edit of a file name. -/
def setControlEdit (manager : BufferManager) (id : Nat) (control : FileNameControl)
    (edit : LineEdit) : BufferManager :=
  { manager with controls := manager.controls.set id { control with edit := edit } }

/-- The text of an edit. -/
def textOf (manager : BufferManager) : EditRef → Option Textframe
  | .control id => manager.controls[id]?.map (·.edit.text)
  | .search => some manager.fileSwitch.search.edit.text
  | .file id => manager.buffers[id]?.map (·.edit.text)

/-- Change the text of an edit. -/
def modifyText (manager : BufferManager) (ref : EditRef)
    (change : Textframe → Option Textframe) : Option BufferManager :=
  match ref with
  | .control id => do
    let control ← manager.controls[id]?
    let text ← change control.edit.text
    some (manager.setControlEdit id control { control.edit with text := text })
  | .search => do
    let text ← change manager.fileSwitch.search.edit.text
    some (manager.setSearchEdit { manager.fileSwitch.search.edit with text := text })
  | .file id => do
    let buffer ← manager.buffers[id]?
    let text ← change buffer.edit.text
    some (manager.setEdit id buffer { buffer.edit with text := text })

/-- Show a message in the status bar. -/
def setStatus (manager : BufferManager) (message : String) : BufferManager :=
  { manager with
    statusBar := { manager.statusBar with
      edit := { manager.statusBar.edit with text := lineEditSetStr (ascii message) } } }

end BufferManager

end XEditor.Gui
