import XEditor.Gui.Placement

/-!
# Which file an operation of the list acts on

A name of the file list is an entry of the directory that the list shows.  The
handlers give this name to the kernel in three ways: behind the path of the
list, after a change to its directory, or bare.  The working directory is the
root, so a bare name means an entry of the root.

The definitions that end in `At` are what the handlers are for: they act on an
entry of a directory and look no path up.
-/

namespace XEditor.Gui

open List Option Edit Kernel Kernel.State Run Text

/-! ## Operations on an entry -/

/-- `sys_open` without `O_CREATE`, for an entry of a directory. -/
def sysOpenAt (state : State) (dir : Nat) (name : Name) (omode : Nat) : Option (State × Int) :=
  match child state dir name with
  | none => some (state, -1)
  | some ip => do
    let inode ← state.inode? ip
    if inode.type = .dir ∧ omode ≠ 0 then some (state.iput ip, -1)
    else some (openInode state ip omode)

/-- `sys_link` for an entry of a directory. -/
def sysLinkAt (state : State) (dir : Nat) (name : Name) (new : Path) : Option (State × Int) :=
  match child state dir name with
  | none => some (state, -1)
  | some ip => do
    let inode ← state.inode? ip
    if inode.type = .dir then some (state.iput ip, -1)
    else
      linkEntry (state.setInode ip { inode with nlink := toShort (inode.nlink + 1) }) ip new

/-- `File_isDir` for an entry of a directory. -/
def fileIsDirAt (state : State) (dir : Nat) (name : Name) (unset : Bool) :
    Option (State × Bool) := do
  let (state, fd) ← sysOpenAt state dir name 0
  let type ← sysFstat state fd
  some ((sysClose state fd).1, type.elim unset (· == .dir))

/-- `textframe_read` for an entry of a directory. -/
def textframeReadAt (state : State) (text : Textframe) (dir : Nat) (name : Name) :
    Option (State × Textframe × Int) := do
  let (state, fd) ← sysOpenAt state dir name oRdwr
  if fd < 0 then some (state, text, -1)
  else do
    let chunks ← readChunksOf state fd
    let text ← textframeRead chunks
    some ((sysClose state fd).1, text, 0)

/-- The type test of `FileSwitchBar_open_file` on an entry of a directory. -/
def canOpenTabAt (manager : BufferManager) (dir : Nat) (name : Name) (unset : Bool) :
    Option (State × Bool) :=
  if manager.fileSwitch.nFiles < fileswitchMaxFiles then
    (fileIsDirAt manager.kernel dir name unset).map fun result => (result.1, !result.2)
  else some (manager.kernel, false)

/-- A new tab for an entry of a directory. -/
def openTabAt (manager : BufferManager) (dir : Nat) (name : Name) (outside : Outside) :
    Option BufferManager := do
  let (kernel, text, _) ← textframeReadAt manager.kernel (makeFileBuffer outside.edit).edit.text
    dir name
  some (addTab manager name outside kernel text)

/-- `DELETE` for an entry of a directory. -/
def deleteAt (manager : BufferManager) (dir : Nat) (name : Name) : Option BufferManager := do
  let (kernel, _) ← unlinkIn manager.kernel dir name
  fileListBufferUpdateFileList { manager with kernel := kernel }

/-- The system calls of `rename_FileNameControl` that change names, for an entry
of a directory. -/
def moveNameAt (state : State) (dir : Nat) (oldName : Name) (newName : Path) : Option State := do
  let (state, _) ← sysLinkAt { state with cwd := dir } dir oldName newName
  let (state, _) ← unlinkIn state dir oldName
  let (state, _) ← sysChdir state [slash]
  some state

/-! ## The paths of the list -/

/-- A path of the list: the names of the directories on the way, each with a
slash behind it. -/
def listPath (names : List Name) : Path :=
  names.flatMap fun name => name ++ [slash]

/-- A name that the list shows: an entry of the directory that the path of the
list leads to from the root, which is the working directory. -/
structure ShownIn (manager : BufferManager) (names : List Name) (dir : Nat) (name : Name) :
    Prop where
  cwd : manager.kernel.cwd = rootino
  path : manager.fileList.path = listPath names
  directories : ∀ directory ∈ names, IsEntryName directory
  walked : resolve manager.kernel rootino names = some dir
  entry : IsEntryName name
  listed : ∃ target, child manager.kernel dir name = some target

section

variable {state : State} {names : List Name} {name : Name}

variable (directories : ∀ directory ∈ names, IsEntryName directory)
include directories

/-- A path of the list is followed by what does not start with a slash. -/
theorem elements_listPath_append {rest : Path} (noSlash : rest.dropWhile (· == slash) = rest) :
    elements (listPath names ++ rest) = names ++ elements rest := by
  induction names with
  | nil => rfl
  | cons first names ih =>
    have isFirst := directories first mem_cons_self
    have others : ∀ directory ∈ names, IsEntryName directory :=
      fun directory mem => directories directory (mem_cons_of_mem first mem)
    have rest_eq : (listPath names ++ rest).dropWhile (· == slash) = listPath names ++ rest := by
      cases names with
      | nil => exact noSlash
      | cons second more =>
        have isSecond := others second mem_cons_self
        simp only [listPath, flatMap_cons, append_assoc]
        exact isSecond.dropWhile_append _
    have skipped : skipelem (listPath (first :: names) ++ rest) =
        some (first, listPath names ++ rest) := by
      have step := skipelem_entryName_slash isFirst (listPath names ++ rest)
      rw [rest_eq] at step
      simpa [listPath, append_assoc] using step
    rw [elements_eq_cons skipped, ih others]
    rfl

theorem elements_listPath : elements (listPath names) = names := by
  have path : elements (listPath names ++ []) = names ++ elements [] :=
    elements_listPath_append directories rfl
  rw [append_nil] at path
  rw [path]
  exact append_nil names

theorem elements_shown (entry : IsEntryName name) :
    elements (listPath names ++ name) = names ++ [name] := by
  have noSlash := entry.dropWhile_append []
  rw [append_nil] at noSlash
  rw [elements_listPath_append directories noSlash, elements_entryName entry]

end

/-! ## Looking a name up -/

section

variable {state : State} {name : Name}

/-- A bare name means an entry of the working directory. -/
theorem nameiparent_entryName (entry : IsEntryName name) (isDir : IsDir state state.cwd) :
    nameiparent state name = some (some (state.cwd, name)) := by
  rw [nameiparent_eq_some_iff, startInum_entryName entry]
  exact ⟨[], elements_entryName entry, rfl, isDir⟩

theorem namei_entryName (entry : IsEntryName name) (isDir : IsDir state state.cwd) :
    namei state name = some (child state state.cwd name) := by
  cases found : child state state.cwd name with
  | some ip => exact (namei_entryName_iff entry).mpr found
  | none =>
    obtain ⟨inode, read, isDirectory⟩ := isDir
    rw [child_of_inode read isDirectory] at found
    rw [namei, namex, startInum_entryName entry, namexLoop, skipelem_entryName entry]
    simp [read, isDirectory, found]

variable {path new : Path}

/-- A path that means an entry is opened as this entry. -/
theorem sysOpen_eq_at {dir omode : Nat} (noCreate : omode &&& oCreate = 0)
    (found : namei state path = some (child state dir name)) :
    sysOpen state path omode = sysOpenAt state dir name omode := by
  rw [sysOpen, if_neg (not_not_intro noCreate), found, sysOpenAt]
  cases child state dir name <;> rfl

theorem sysLink_eq_at {dir : Nat} (new : Path)
    (found : namei state name = some (child state dir name)) :
    sysLink state name new = sysLinkAt state dir name new := by
  rw [sysLink, found, sysLinkAt]
  cases child state dir name <;> rfl

theorem sysUnlink_eq_at {dir : Nat}
    (parent : nameiparent state name = some (some (dir, name))) :
    sysUnlink state name = unlinkIn state dir name := by
  rw [sysUnlink, parent]
  rfl

/-- A link leaves the working directory, and every directory is one afterwards. -/
theorem sysLink_directories (wf : state.WellFormed) {linked : State} {code : Int}
    (called : sysLink state name new = some (linked, code)) :
    linked.cwd = state.cwd ∧ ∀ dir, IsDir state dir → IsDir linked dir := by
  rcases sysLink_cases wf.orphans.kept wf.short called with
    ⟨rfl, -⟩ | ⟨ip, dp, inode, parent, last, link, rfl, -⟩
  · exact ⟨rfl, fun _ isDir => isDir⟩
  refine ⟨rfl, fun dir isDir => ?_⟩
  have notFile : ip ≠ dir := by
    rintro rfl
    exact not_isDir link.read link.notDir isDir
  obtain ⟨before, read, isDirectory⟩ := isDir
  have counted : (state.setInode ip { inode with nlink := toShort (inode.nlink + 1) }).inode?
      dir = some before := by
    rw [inode?_setInode_ne notFile]
    exact read
  by_cases atParent : dp = dir
  · subst atParent
    exact ⟨_, inode?_setInode_self counted _, link.isDir⟩
  · refine ⟨before, ?_, isDirectory⟩
    rw [linked, entered, inode?_setInode_ne atParent]
    exact counted

/-- After a link in the working directory, its names still mean its entries. -/
theorem nameiparent_after_link (wf : state.WellFormed) (entry : IsEntryName name) {linked : State}
    {code : Int} (called : sysLink state name new = some (linked, code)) :
    nameiparent linked name = some (some (state.cwd, name)) := by
  obtain ⟨sameCwd, directories⟩ := sysLink_directories wf called
  rw [← sameCwd]
  apply nameiparent_entryName entry
  rw [sameCwd]
  exact directories state.cwd wf.cwdDir

end

namespace ShownIn

variable {manager : BufferManager} {names : List Name} {dir : Nat} {name : Name}
  (shown : ShownIn manager names dir name)

include shown

theorem startInum_eq (path : Path) : startInum manager.kernel path = rootino := by
  rw [startInum, shown.cwd]
  split <;> rfl

theorem isDir : IsDir manager.kernel dir := by
  obtain ⟨target, step⟩ := shown.listed
  exact isDir_of_child step

/-- The walk to the directory starts in the root. -/
theorem rootDir : IsDir manager.kernel rootino := by
  have walked := shown.walked
  cases names with
  | nil =>
    obtain rfl : rootino = dir := some.inj walked
    exact shown.isDir
  | cons first rest =>
    obtain ⟨next, step, -⟩ := bind_eq_some_iff.mp walked
    exact isDir_of_child step

theorem cwdDir : IsDir manager.kernel manager.kernel.cwd := by
  rw [shown.cwd]
  exact shown.rootDir

/-- The path of the list with a name behind it means the entry that is shown. -/
theorem nameiparent_eq :
    nameiparent manager.kernel (manager.fileList.path ++ name) = some (some (dir, name)) := by
  rw [nameiparent_eq_some_iff, shown.startInum_eq, shown.path]
  exact ⟨names, elements_shown shown.directories shown.entry, shown.walked, shown.isDir⟩

theorem namei_eq :
    namei manager.kernel (manager.fileList.path ++ name) =
      some (child manager.kernel dir name) := by
  obtain ⟨target, step⟩ := shown.listed
  rw [step, namei_eq_some_iff, shown.startInum_eq, shown.path,
    elements_shown shown.directories shown.entry, resolve_concat, shown.walked]
  exact step

/-- The path of the list leads to the directory. -/
theorem namei_path : namei manager.kernel manager.fileList.path = some (some dir) := by
  rw [namei_eq_some_iff, shown.startInum_eq, shown.path, elements_listPath shown.directories]
  exact shown.walked

/-- A renaming is done with the directory of the list as the working directory. -/
theorem enterDir_eq (orphans : manager.kernel.OrphansHeld) :
    enterDir manager.kernel manager.fileList.path = some { manager.kernel with cwd := dir } := by
  rw [enterDir]
  split
  · rename_i atRoot
    have leads := shown.namei_path
    rw [atRoot] at leads
    have stays : namei manager.kernel [] = some (some manager.kernel.cwd) := rfl
    obtain rfl : manager.kernel.cwd = dir := some.inj (some.inj (stays.symm.trans leads))
    rfl
  · obtain ⟨inode, read, isDirectory⟩ := shown.isDir
    have moved : { manager.kernel with cwd := dir }.OrphansHeld := orphans
    simp [sysChdir, shown.namei_path, read, isDirectory, moved.iput]

/-! ### The operations -/

/-- Opening acts on the entry that is shown. -/
theorem openTab_eq (outside : Outside) :
    openTab manager name outside = openTabAt manager dir name outside := by
  have read (text : Textframe) :
      textframeReadFile manager.kernel text (manager.fileList.path ++ name) =
        textframeReadAt manager.kernel text dir name := by
    rw [textframeReadFile, sysOpen_eq_at (by decide) shown.namei_eq, textframeReadAt]
  rw [openTab, openTabAt, read]

/-- The type test acts on an entry of the root. -/
theorem canOpenTab_eq (unset : Bool) :
    canOpenTab manager name unset = canOpenTabAt manager rootino name unset := by
  have found := namei_entryName shown.entry shown.cwdDir
  rw [shown.cwd] at found
  have typed : fileIsDir manager.kernel name unset =
      fileIsDirAt manager.kernel rootino name unset := by
    rw [fileIsDir, sysOpen_eq_at (by decide) found, fileIsDirAt]
  rw [canOpenTab, canOpenTabAt, typed]

/-- Removing acts on an entry of the root. -/
theorem deleteSelected_eq {id : Nat} {control : FileNameControl}
    (selected : manager.fileList.fileSelected = some id)
    (read : manager.controls[id]? = some control) (label : control.edit.text.line? 0 = some name) :
    deleteSelected manager = deleteAt manager rootino name := by
  have parent := nameiparent_entryName shown.entry shown.cwdDir
  rw [shown.cwd] at parent
  rw [deleteSelected, selected]
  simp only [read, label, bind_eq_bind, bind_some]
  rw [sysUnlink_eq_at parent]
  rfl

/-- Renaming acts on the entry that is shown. -/
theorem moveName_eq (wf : manager.kernel.WellFormed) (newName : Path) :
    moveName manager.kernel manager.fileList.path name newName =
      moveNameAt manager.kernel dir name newName := by
  have wfHere := wf.withCwd shown.isDir
  have found := namei_entryName shown.entry wfHere.cwdDir
  have unlinked : ∀ linked code,
      sysLinkAt { manager.kernel with cwd := dir } dir name newName = some (linked, code) →
        sysUnlink linked name = unlinkIn linked dir name := by
    intro linked code called
    rw [← sysLink_eq_at newName found] at called
    exact sysUnlink_eq_at (nameiparent_after_link wfHere shown.entry called)
  rw [moveName, shown.enterDir_eq wf.orphans, moveNameAt]
  simp only [bind_eq_bind, bind_some]
  rw [sysLink_eq_at newName found]
  cases linkCall : sysLinkAt { manager.kernel with cwd := dir } dir name newName with
  | none => rfl
  | some result =>
    simp only [bind_some]
    rw [unlinked result.1 result.2 linkCall]

end ShownIn

/-! ## What the operations look up -/

/-- The operations of the window on a file of the list. -/
inductive Operation where
  | typeTest
  | openFile
  | remove
  | link
  | unlink
deriving DecidableEq

namespace Operation

/-- The path that an operation gives to the kernel, and the state in which it
does.  `link` and `unlink` are those of a renaming, and a renaming that does not
get so far looks nothing up. -/
def lookup (manager : BufferManager) (name : Name) (newName : Path) :
    Operation → Option (State × Path)
  | typeTest => some (manager.kernel, name)
  | openFile => some (manager.kernel, manager.fileList.path ++ name)
  | remove => some (manager.kernel, name)
  | link => (enterDir manager.kernel manager.fileList.path).map fun state => (state, name)
  | unlink => do
    let state ← enterDir manager.kernel manager.fileList.path
    let (state, _) ← sysLink state name newName
    some (state, name)

/-- What an operation looks up is an entry of a directory. -/
def ResolvesTo (manager : BufferManager) (dir : Nat) (name : Name) (newName : Path)
    (operation : Operation) : Prop :=
  ∀ state path, operation.lookup manager name newName = some (state, path) →
    nameiparent state path = some (some (dir, name))

/-- The directory in which an operation looks a name of the list up. -/
def directory (dir : Nat) : Operation → Nat
  | typeTest | remove => rootino
  | openFile | link | unlink => dir

variable {manager : BufferManager} {names : List Name} {dir : Nat} {name : Name}

variable (wf : manager.kernel.WellFormed) (shown : ShownIn manager names dir name)
include wf shown

/-- Where an operation finds the name. -/
theorem resolvesTo_directory (newName : Path) (operation : Operation) :
    operation.ResolvesTo manager (operation.directory dir) name newName := by
  have bare := nameiparent_entryName shown.entry shown.cwdDir
  rw [shown.cwd] at bare
  have wfHere := wf.withCwd shown.isDir
  have entered := shown.enterDir_eq wf.orphans
  intro state path looked
  cases operation with
  | typeTest | remove =>
    obtain ⟨rfl, rfl⟩ := Prod.mk.inj (some.inj looked)
    exact bare
  | openFile =>
    obtain ⟨rfl, rfl⟩ := Prod.mk.inj (some.inj looked)
    exact shown.nameiparent_eq
  | link =>
    rw [lookup, entered] at looked
    obtain ⟨rfl, rfl⟩ := Prod.mk.inj (some.inj looked)
    exact nameiparent_entryName shown.entry wfHere.cwdDir
  | unlink =>
    rw [lookup, entered, bind_eq_bind, bind_some] at looked
    obtain ⟨⟨relinked, code⟩, linkCall, looked⟩ := bind_eq_some_iff.mp looked
    obtain ⟨rfl, rfl⟩ := Prod.mk.inj (some.inj looked)
    exact nameiparent_after_link wfHere shown.entry linkCall

/-- An operation finds the entry that is shown exactly when it looks in the
directory of the list. -/
theorem resolvesTo_iff {newName : Path} {operation : Operation} {state : State}
    (looked : operation.lookup manager name newName = some (state, path)) :
    operation.ResolvesTo manager dir name newName ↔ operation.directory dir = dir := by
  have found := resolvesTo_directory wf shown newName operation state path looked
  constructor
  · intro resolves
    have same := found.symm.trans (resolves state path looked)
    exact congrArg Prod.fst (some.inj (some.inj same))
  · intro inList
    have resolves := resolvesTo_directory wf shown newName operation
    rwa [inList] at resolves

end Operation

/-- The open and the renaming of a name of the list act on the entry of the
directory that the list shows.  The type test and the removal act on the entry
of this name in the root, so that every operation finds the file that is shown
exactly when the list shows the root. -/
theorem file_operations_resolve_iff {manager : BufferManager} {names : List Name} {dir : Nat}
    {name : Name} (wf : manager.kernel.WellFormed) (shown : ShownIn manager names dir name) :
    ((∀ operation newName, Operation.ResolvesTo manager dir name newName operation) ↔
      dir = rootino) ∧
    (∀ outside, openTab manager name outside = openTabAt manager dir name outside) ∧
    (∀ newName, moveName manager.kernel manager.fileList.path name newName =
      moveNameAt manager.kernel dir name newName) ∧
    (∀ unset, canOpenTab manager name unset = canOpenTabAt manager rootino name unset) ∧
    (∀ id control, manager.fileList.fileSelected = some id →
      manager.controls[id]? = some control → control.edit.text.line? 0 = some name →
        deleteSelected manager = deleteAt manager rootino name) := by
  refine ⟨⟨fun resolves => ?_, fun atRoot operation newName => ?_⟩, shown.openTab_eq,
    shown.moveName_eq wf, shown.canOpenTab_eq, fun id control => shown.deleteSelected_eq⟩
  · exact ((Operation.resolvesTo_iff wf shown rfl).mp (resolves .remove [])).symm
  have found := Operation.resolvesTo_directory wf shown newName operation
  have inRoot : operation.directory dir = dir := by
    cases operation <;> simp [Operation.directory, atRoot]
  rwa [inRoot] at found

theorem file_operations_resolve_in_root :
    ShownIn listed [] rootino [97] ∧
      (∀ operation newName, Operation.ResolvesTo listed rootino [97] newName operation) := by
  have kernel_eq : listed.kernel = twoFiles 100 := by decide
  have wf : listed.kernel.WellFormed := kernel_eq ▸ twoFiles_wellFormed
  have shown : ShownIn listed [] rootino [97] :=
    ⟨by decide, by decide, by decide, rfl, by decide, 2, by decide⟩
  exact ⟨shown, (file_operations_resolve_iff wf shown).1.mpr rfl⟩

/-- A root with a directory `d` and a file `a`, and a file `a` in `d`. -/
def sameNames : State where
  inodes := [
    none,
    some ⟨.dir, 2, [⟨1, dotName⟩, ⟨1, dotDotName⟩, ⟨2, [100]⟩, ⟨3, [97]⟩], []⟩,
    some ⟨.dir, 1, [⟨2, dotName⟩, ⟨1, dotDotName⟩, ⟨4, [97]⟩], []⟩,
    some ⟨.file, 1, [], [120]⟩,
    some ⟨.file, 1, [], [121]⟩]
  cwd := 1
  ofile := List.replicate 100 none
  heldElsewhere := []
  ftableFree := 100

/-- The window on the two files. -/
def twoNamed : BufferManager :=
  (makeBufferManager sameNames ⟨0, 0, 0⟩ ⟨0, 0, 0⟩).get (by decide)

/-- The directory `d` has been entered and its file `a` clicked. -/
def inDirectory : BufferManager :=
  (run (BufferManager.step noHan) twoNamed
    [.mouse 15 65 .leftPress nothing, .mouse 15 65 .leftPress nothing]).get (by decide)

/-- The key `DELETE` removes the file of the root that has the name of the
selected one. -/
theorem delete_removes_same_name_in_root :
    makeBufferManager sameNames ⟨0, 0, 0⟩ ⟨0, 0, 0⟩ = some twoNamed ∧
    run (BufferManager.step noHan) twoNamed
      [.mouse 15 65 .leftPress nothing, .mouse 15 65 .leftPress nothing] = some inDirectory ∧
    ShownIn inDirectory [[100]] 2 [97] ∧
    ¬ Operation.ResolvesTo inDirectory 2 [97] [] .remove ∧
    ∃ next, inDirectory.step noHan (.keyboard delete nothing) = some next ∧
      child inDirectory.kernel rootino [97] = some 3 ∧ child next.kernel rootino [97] = none ∧
      child next.kernel 2 [97] = some 4 := by
  have removes : (inDirectory.step noHan (.keyboard delete nothing)).map (fun next =>
      (child next.kernel rootino [97], child next.kernel 2 [97])) = some (none, some 4) := by
    decide
  obtain ⟨next, removed, left⟩ := map_eq_some_iff.mp removes
  rw [Prod.mk.injEq] at left
  refine ⟨(some_get _).symm, (some_get _).symm,
    ⟨by decide, by decide, by decide, by decide, by decide, 4, by decide⟩, ?_,
    next, removed, by decide, left.1, left.2⟩
  intro resolves
  have other := resolves inDirectory.kernel [97] rfl
  exact absurd other (by decide)

end XEditor.Gui
