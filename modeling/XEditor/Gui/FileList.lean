import XEditor.Gui.Component
import XEditor.Gui.Rename
import XEditor.Text.Load

/-!
# The file list

The list of the files in a directory, the renaming of a file and the transfer
of texts from and to files.  The buffers of 512 bytes in which the source keeps
paths are lists without a bound here.
-/

namespace XEditor.Gui

open Edit Kernel Text

/-! ## Reading directories and files -/

/-- Source `stat` of the user library; the return value -1 is the inner
`none`. -/
def stat (state : State) (path : Path) : Option (State × Option FileType) := do
  let (state, fd) ← sysOpen state path 0
  if fd < 0 then some (state, none)
  else do
    let type ← sysFstat state fd
    some ((sysClose state fd).1, type)

/-- Source `fmtname`: what stands behind the last slash. -/
def fmtname (path : Path) : Name :=
  path.rtakeWhile (· ≠ slash)

/-- The entries that `read` delivers from a descriptor of a directory. -/
def readEntries (state : State) (fd : Int) : Option (List Dirent) :=
  match state.file? fd with
  | none => some []
  | some file =>
    (state.inode? file.inum).map fun inode => if inode.type = .dir then inode.entries else []

/-- The reading loop of `FileListBuffer_update_FileList`: the names of the
entries that can be opened. -/
def listLoop (path : Path) : (state : State) → (entries : List Dirent) →
    Option (State × List Name)
  | state, [] => some (state, [])
  | state, entry :: rest =>
    if entry.inum = 0 then listLoop path state rest
    else do
      let (state, type) ← stat state (path ++ slash :: entry.name)
      let (state, names) ← listLoop path state rest
      some (state,
        if type.isSome then fmtname (path ++ slash :: entry.name) :: names else names)

/-- One of the two passes of `FileListBuffer_update_FileList` over a
directory. -/
def listDir (state : State) (path : Path) : Option (State × List Name) := do
  let (state, fd) ← sysOpen state path 0
  let entries ← readEntries state fd
  let (state, names) ← listLoop path state entries
  some ((sysClose state fd).1, names)

/-- Source `ROWSIZE`. -/
def rowsize : Nat := 1024

/-- The chunks that `read` delivers from a descriptor of a regular file.  Other
inodes are not modelled. -/
def readChunksOf (state : State) (fd : Int) : Option (List (List UInt8)) :=
  match state.file? fd with
  | none => some []
  | some file => do
    let inode ← state.inode? file.inum
    if inode.type = .file then some (inode.content.toChunks rowsize) else none

/-- Source `textframe_read` with the calls that deliver the bytes. -/
def textframeReadFile (state : State) (text : Textframe) (filename : Path) :
    Option (State × Textframe × Int) := do
  let (state, fd) ← sysOpen state filename oRdwr
  if fd < 0 then some (state, text, -1)
  else do
    let chunks ← readChunksOf state fd
    let text ← textframeRead chunks
    some ((sysClose state fd).1, text, 0)

/-! ## The list -/

/-- The file name at an index of the list, as
`FileListBuffer_update_FileList` makes it. -/
def fileNameControlAt (index : Nat) (name : Name) : FileNameControl where
  area := ⟨0, index * 16, 100, 16, 0, 0⟩
  edit := { makeLineEdit with text := lineEditSetStr name }
  oldName := name

/-- Source `FileListBuffer_update_FileList`.  The first pass counts the files to
allocate the array that the second pass fills. -/
def fileListBufferUpdateFileList (manager : BufferManager) : Option BufferManager := do
  let (kernel, counted) ← listDir manager.kernel manager.fileList.path
  let (kernel, listed) ← listDir kernel manager.fileList.path
  let names := listed.filter (· ≠ ascii "console")
  if names.length > counted.length then none
  else
    some { manager with
      kernel := kernel
      controls := manager.controls ++ names.mapIdx fileNameControlAt
      fileList := { manager.fileList with
        files := (List.range names.length).map (manager.controls.length + ·) } }

/-- Source `handle_mouse_FileNameControl`. -/
def handleMouseFileNameControl (manager : BufferManager) (id : Nat) (x y : Int) :
    Option BufferManager := do
  let control ← manager.controls[id]?
  some ((manager.setControlEdit id control (handleMouseLineEdit control.edit x y)).focusOn
    (.control id) .lineEdit)

/-- Source `handle_keyboard_FileNameControl`. -/
def handleKeyboardFileNameControl (manager : BufferManager) (id : Nat) (c : Int) :
    Option BufferManager := do
  let control ← manager.controls[id]?
  let edit ← handleKeyboardLineEdit control.edit c
  some (manager.setControlEdit id control edit)

/-- Source `handle_keyboard_FileListBuffer`. -/
def handleKeyboardFileListBuffer (manager : BufferManager) (c : Int) : Option BufferManager :=
  match manager.fileList.fileSelected with
  | none => some manager
  | some id => handleKeyboardFileNameControl manager id c

/-! ## Renaming -/

/-- A path with another name behind its last slash. -/
def renamedPath (filepathname : Path) (newName : Name) : Path :=
  filepathname.take (filepathname.length - (fmtname filepathname).length) ++ newName

/-- The body of the loop of `rename_FileNameControl` over the tabs. -/
def relabelTab (manager : BufferManager) (oldName newName : Name) (i : Nat) :
    Option BufferManager := do
  let id ← manager.fileSwitch.buttons[i]?.join
  let button ← manager.tabButtons[id]?
  let label ← button.edit.text.line? 0
  if label ≠ oldName then some manager
  else do
    let file ← manager.fileSwitch.files[i]?.join
    let buffer ← manager.buffers[file]?
    if manager.fileList.path ++ oldName ≠ buffer.filepathname then some manager
    else
      some { manager with
        tabButtons := manager.tabButtons.set id { button with
          edit := { button.edit with text := lineEditSetStr newName } }
        buffers := manager.buffers.set file { buffer with
          filepathname := renamedPath buffer.filepathname newName } }

/-- The loop of `rename_FileNameControl` over the tabs. -/
def relabelLoop (oldName newName : Name) : (left i : Nat) → (manager : BufferManager) →
    Option BufferManager
  | 0, _, manager => some manager
  | left + 1, i, manager => do
    let manager ← relabelTab manager oldName newName i
    relabelLoop oldName newName left (i + 1) manager

/-- Source `rename_FileNameControl`.  Its system calls are those of
`renameFile`. -/
def renameFileNameControl (manager : BufferManager) (id : Nat) (unset : Bool) :
    Option BufferManager := do
  let manager := { manager with isRename := false }
  let control ← manager.controls[id]?
  let newName ← control.edit.text.line? 0
  let (kernel, isDir) ← fileIsDir manager.kernel control.oldName unset
  let manager := { manager with kernel := kernel }
  if newName = control.oldName ∨ isDir = true then some manager
  else do
    let kernel ← moveName manager.kernel manager.fileList.path control.oldName newName
    let manager ← relabelLoop control.oldName newName manager.fileSwitch.nFiles 0
      { manager with kernel := kernel }
    fileListBufferUpdateFileList manager

/-! ## Saving -/

/-- Source `FileBuffer_save_file`, with the path that both its callers pass. -/
def fileBufferSaveFile (manager : BufferManager) (id : Nat) (faults : Nat → Option Nat) :
    Option BufferManager := do
  let buffer ← manager.buffers[id]?
  let (kernel, text, _) ← textframeWrite manager.kernel faults buffer.edit.text buffer.filepathname
  fileListBufferUpdateFileList
    ({ manager with kernel := kernel }.setEdit id buffer { buffer.edit with text := text })

end XEditor.Gui
