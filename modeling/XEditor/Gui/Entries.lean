import XEditor.Gui.FileOperations

/-!
# Tabs and the files they show

A tab has a label, by which it is found, and the path of its file, by which the
file is read and written.  Files in two directories may have one label, and a
renaming may give two tabs one path.
-/

namespace XEditor.Gui

open List Option Edit Kernel Run Text BufferManager

/-- The path of a file that has been opened. -/
def pathOf (manager : BufferManager) (id : Nat) : Option Path :=
  manager.buffers[id]?.map (·.filepathname)

/-- The path of the file of the tab at an index. -/
def tabPath (manager : BufferManager) (i : Nat) : Option Path :=
  manager.fileSwitch.files[i]?.join.bind (pathOf manager)

/-- No two tabs show files with one path. -/
def DistinctPaths (manager : BufferManager) : Prop :=
  ∀ i j, i < manager.fileSwitch.nFiles → j < manager.fileSwitch.nFiles →
    tabPath manager i = tabPath manager j → i = j

def HasTab (manager : BufferManager) (path : Path) : Prop :=
  ∃ i < manager.fileSwitch.nFiles, tabPath manager i = some path

/-- The current file is that of a tab with a path. -/
def ShowsTab (manager : BufferManager) (path : Path) : Prop :=
  ∃ i < manager.fileSwitch.nFiles,
    manager.fileSwitch.files[i]? = some manager.fileSwitch.current ∧
      tabPath manager i = some path

/-- The return value of `FileSwitchBar_open_file`. -/
def openCode (manager : BufferManager) (filename : Name) (outside : Outside) : Option Int := do
  match ← fileSwitchBarFindFile manager filename with
  | some _ => some 0
  | none => do
    let (kernel, isFile) ← canOpenTab manager filename outside.opened
    if isFile = true then some 0
    else do
      let (_, isDir) ← fileIsDir kernel filename outside.entered
      some (if isDir = true then 0 else -1)

/-- The label of the first tab that has the name belongs to the entry of the list;
if there is none, no tab has the path of the entry and the entry is not taken for
a directory. -/
structure OpensEntry (manager : BufferManager) (filename : Name) (outside : Outside) : Prop where
  found : ∀ i, fileSwitchBarFindFile manager filename = some (some i) →
    tabPath manager i = some (manager.fileList.path ++ filename)
  opened : fileSwitchBarFindFile manager filename = some none →
    (∃ kernel, canOpenTab manager filename outside.opened = some (kernel, true)) →
      ¬ HasTab manager (manager.fileList.path ++ filename)
  entered : entersDirectory manager filename outside = some true →
    ShowsTab manager (manager.fileList.path ++ filename)

/-- A call of an operation on the tabs, a renaming, or something outside the bar,
after which the disk, the names and the list may be any. -/
inductive EntryEvent where
  | call (call : TabCall)
  | rename (control : Nat) (unset : Bool)
  | around (kernel : State) (controls : List FileNameControl) (fileList : FileListBuffer)

def entryStep (manager : BufferManager) : EntryEvent → Option BufferManager
  | .call call => tabCall manager call
  | .rename control unset => renameFileNameControl manager control unset
  | .around kernel controls fileList => some { manager with kernel, controls, fileList }

/-- The condition on an event: a file is opened under its own label, and a file
with a tab is renamed to a path that no tab has. -/
def KeepsEntries (manager : BufferManager) : EntryEvent → Prop
  | .call (.openFile filename outside) => OpensEntry manager filename outside
  | .rename id _ => ∀ control newName, manager.controls[id]? = some control →
      control.edit.text.line? 0 = some newName → newName ≠ control.oldName →
        HasTab manager (manager.fileList.path ++ control.oldName) →
          ¬ HasTab manager (renamedPath (manager.fileList.path ++ control.oldName) newName)
  | _ => True

/-! ## Tabs as a list -/

section

variable {manager next : BufferManager} {tabs : List Nat}

variable {i id : Nat} {path old new : Path} {oldName newName : Name}

theorem Tabs.tabPath_eq (shown : Tabs manager tabs) (inside : i < tabs.length) :
    tabPath manager i = pathOf manager tabs[i] := by
  rw [tabPath, shown.files.getElem? inside]
  rfl

theorem Tabs.distinctPaths_iff (shown : Tabs manager tabs) :
    DistinctPaths manager ↔
      ∀ a ∈ tabs, ∀ b ∈ tabs, pathOf manager a = pathOf manager b → a = b := by
  rw [DistinctPaths, shown.count]
  constructor
  · intro distinct a isA b isB same
    obtain ⟨i, iInside, rfl⟩ := getElem_of_mem isA
    obtain ⟨j, jInside, rfl⟩ := getElem_of_mem isB
    rw [← shown.tabPath_eq iInside, ← shown.tabPath_eq jInside] at same
    obtain rfl := distinct i j iInside jInside same
    rfl
  · intro distinct i j iInside jInside same
    rw [shown.tabPath_eq iInside, shown.tabPath_eq jInside] at same
    exact (getElem_inj shown.distinct).mp
      (distinct _ (getElem_mem iInside) _ (getElem_mem jInside) same)

theorem Tabs.hasTab_iff (shown : Tabs manager tabs) :
    HasTab manager path ↔ ∃ a ∈ tabs, pathOf manager a = some path := by
  rw [HasTab, shown.count]
  constructor
  · rintro ⟨i, inside, isPath⟩
    exact ⟨tabs[i], getElem_mem inside, (shown.tabPath_eq inside).symm.trans isPath⟩
  · rintro ⟨a, isTab, isPath⟩
    obtain ⟨i, inside, rfl⟩ := getElem_of_mem isTab
    exact ⟨i, inside, (shown.tabPath_eq inside).trans isPath⟩

theorem Tabs.showsTab_iff (shown : Tabs manager tabs) :
    ShowsTab manager path ↔
      ∃ a ∈ tabs, manager.fileSwitch.current = some a ∧ pathOf manager a = some path := by
  rw [ShowsTab, shown.count]
  constructor
  · rintro ⟨i, inside, slot, isPath⟩
    rw [shown.files.getElem? inside] at slot
    exact ⟨tabs[i], getElem_mem inside, (some.inj slot).symm,
      (shown.tabPath_eq inside).symm.trans isPath⟩
  · rintro ⟨a, isTab, isCurrent, isPath⟩
    obtain ⟨i, inside, rfl⟩ := getElem_of_mem isTab
    refine ⟨i, inside, ?_, (shown.tabPath_eq inside).trans isPath⟩
    rw [shown.files.getElem? inside, isCurrent]

/-- The same tabs show the same files. -/
theorem Tabs.distinctPaths_congr (shown : Tabs manager tabs) (stillShown : Tabs next tabs)
    (paths : ∀ id, pathOf next id = pathOf manager id) :
    DistinctPaths next ↔ DistinctPaths manager := by
  rw [stillShown.distinctPaths_iff, shown.distinctPaths_iff]
  simp only [paths]

/-- A new tab has the path of the entry and is current. -/
theorem openTab_paths {filename : Name} {outside : Outside}
    (called : openTab manager filename outside = some next) :
    (∀ id < manager.buffers.length, pathOf next id = pathOf manager id) ∧
      pathOf next manager.buffers.length = some (manager.fileList.path ++ filename) ∧
        next.fileSwitch.current = some manager.buffers.length := by
  obtain ⟨⟨kernel, text, code⟩, -, called⟩ := bind_eq_some_iff.mp called
  cases called
  refine ⟨fun id old => ?_, ?_, rfl⟩
  · simp only [pathOf, addTab, focusOn, getElem?_append_left old]
  · simp [pathOf, addTab, focusOn]

theorem Tabs.openTab_distinctPaths (shown : Tabs manager tabs) (distinct : DistinctPaths manager)
    {filename : Name} {outside : Outside} (opened : Tabs next (tabs ++ [manager.buffers.length]))
    (called : Gui.openTab manager filename outside = some next) :
    ShowsTab next (manager.fileList.path ++ filename) ∧
      (DistinctPaths next ↔ ¬ HasTab manager (manager.fileList.path ++ filename)) := by
  obtain ⟨old, new, current⟩ := openTab_paths called
  have kept (id : Nat) (isTab : id ∈ tabs) : pathOf next id = pathOf manager id :=
    old id (shown.made id isTab)
  rw [shown.distinctPaths_iff] at distinct
  rw [opened.showsTab_iff, opened.distinctPaths_iff, shown.hasTab_iff]
  refine ⟨⟨_, by simp, current, new⟩, ?_⟩
  constructor
  · rintro different ⟨a, isTab, isPath⟩
    have same := different a (by simp [isTab]) manager.buffers.length (by simp)
      (by rw [kept a isTab, isPath, new])
    exact absurd (shown.made a isTab) (by omega)
  · intro noTab a isA b isB same
    rw [mem_append, mem_singleton] at isA isB
    rcases isA with oldA | rfl <;> rcases isB with oldB | rfl
    · rw [kept a oldA, kept b oldB] at same
      exact distinct a oldA b oldB same
    · rw [kept a oldA, new] at same
      exact absurd ⟨a, oldA, same⟩ noTab
    · rw [kept b oldB, new] at same
      exact absurd ⟨b, oldB, same.symm⟩ noTab
    · rfl

theorem enterDirectory_paths {filename : Name}
    (called : enterDirectory manager filename = some next) :
    (∀ id, pathOf next id = pathOf manager id) ∧
      next.fileSwitch.current = manager.fileSwitch.current := by
  obtain ⟨kernel, names, rfl⟩ := updateFileList_eq called
  exact ⟨fun _ => rfl, rfl⟩

section

variable {filename : Name} {outside : Outside}

theorem opensEntry_found_iff (isFound : fileSwitchBarFindFile manager filename = some (some i)) :
    OpensEntry manager filename outside ↔
      tabPath manager i = some (manager.fileList.path ++ filename) := by
  constructor
  · exact fun opens => opens.found i isFound
  intro isPath
  refine ⟨fun j isFound' => ?_, fun notFound => ?_, fun enters => ?_⟩
  · rw [isFound, some.injEq, some.injEq] at isFound'
    exact isFound' ▸ isPath
  · rw [isFound] at notFound
    cases notFound
  · simp [entersDirectory, isFound] at enters

section

variable {kernel : State} (notFound : fileSwitchBarFindFile manager filename = some none)
include notFound

theorem opensEntry_opened_iff
    (can : canOpenTab manager filename outside.opened = some (kernel, true)) :
    OpensEntry manager filename outside ↔ ¬ HasTab manager (manager.fileList.path ++ filename) := by
  constructor
  · exact fun opens => opens.opened notFound ⟨kernel, can⟩
  intro noTab
  refine ⟨fun j isFound => ?_, fun _ _ => noTab, fun enters => ?_⟩
  · rw [notFound] at isFound
    cases isFound
  · simp [entersDirectory, notFound, can] at enters

theorem opensEntry_entered_iff
    (cannot : canOpenTab manager filename outside.opened = some (kernel, false)) :
    OpensEntry manager filename outside ↔ (entersDirectory manager filename outside = some true →
      ShowsTab manager (manager.fileList.path ++ filename)) := by
  constructor
  · exact OpensEntry.entered
  intro shows
  refine ⟨fun j isFound => ?_, fun _ can => ?_, shows⟩
  · rw [notFound] at isFound
    cases isFound
  · rw [cannot] at can
    simp at can

end

/-- Opening an entry shows it, and no other tab has its path, exactly when the
condition holds. -/
theorem Tabs.openFile_shows_iff (shown : Tabs manager tabs) (distinct : DistinctPaths manager)
    {code : Int} (called : fileSwitchBarOpenFile manager filename outside = some next)
    (returned : openCode manager filename outside = some code) :
    ((code = 0 → ShowsTab next (manager.fileList.path ++ filename) ∧ DistinctPaths next) ↔
        OpensEntry manager filename outside) ∧
      (OpensEntry manager filename outside → DistinctPaths next) := by
  have kept (kernel : State) : Tabs { manager with kernel := kernel } tabs :=
    shown.congr shown.toBarTabs rfl rfl
  obtain ⟨found, isFound, called⟩ := bind_eq_some_iff.mp called
  cases found with
  | some i =>
    simp only [openCode, isFound, bind_eq_bind, bind_some, some.injEq] at returned
    subst returned
    have bound := (findTab_hit isFound).1
    rw [Nat.zero_add, shown.count] at bound
    obtain ⟨file, slot, called⟩ := bind_eq_some_iff.mp called
    rw [shown.files.getElem? bound] at slot
    cases slot
    cases called
    have stillShown : Tabs { manager with fileSwitch := { manager.fileSwitch with
        current := some tabs[i] } } tabs :=
      shown.congr (shown.withCurrent (getElem_mem bound)) rfl rfl
    have stays : DistinctPaths { manager with fileSwitch := { manager.fileSwitch with
        current := some tabs[i] } } := distinct
    rw [opensEntry_found_iff isFound, shown.tabPath_eq bound, stillShown.showsTab_iff]
    refine ⟨⟨fun shows => ?_, fun isPath _ => ?_⟩, fun _ => stays⟩
    · obtain ⟨⟨a, -, isCurrent, isPath⟩, -⟩ := shows rfl
      rw [some.inj isCurrent]
      exact isPath
    · exact ⟨⟨tabs[i], getElem_mem bound, rfl, isPath⟩, stays⟩
  | none =>
    obtain ⟨⟨kernel, isFile⟩, can, called⟩ := bind_eq_some_iff.mp called
    cases isFile with
    | true =>
      simp only [openCode, isFound, can, bind_eq_bind, bind_some, if_true, some.injEq] at returned
      subst returned
      have room := canOpenTab_room can
      rw [shown.count] at room
      obtain ⟨shows, distinct_iff⟩ := (kept kernel).openTab_distinctPaths distinct
        ((kept kernel).openTab room called) called
      rw [opensEntry_opened_iff isFound can]
      exact ⟨⟨fun holds => distinct_iff.mp (holds rfl).2,
        fun noTab _ => ⟨shows, distinct_iff.mpr noTab⟩⟩, distinct_iff.mpr⟩
    | false =>
      obtain ⟨⟨probed, isDir⟩, probing, called⟩ := bind_eq_some_iff.mp called
      have enters : entersDirectory manager filename outside = some isDir := by
        simp [entersDirectory, isFound, can, probing]
      simp only [openCode, isFound, can, probing, bind_eq_bind, bind_some,
        Bool.false_eq_true, if_false, some.injEq] at returned
      subst returned
      rw [opensEntry_entered_iff isFound can, enters]
      cases isDir with
      | true =>
        have stillShown := (kept probed).enterDirectory called
        obtain ⟨paths, current⟩ := enterDirectory_paths called
        have stays : DistinctPaths next := (shown.distinctPaths_congr stillShown paths).mpr
          distinct
        rw [stillShown.showsTab_iff, shown.showsTab_iff, current]
        simp only [paths, if_true, forall_const, stays, and_true]
        exact ⟨Iff.rfl, fun _ => trivial⟩
      | false =>
        cases called
        exact ⟨by simp, fun _ => distinct⟩

/-- The value is returned whenever the call returns. -/
theorem openCode_isSome (called : fileSwitchBarOpenFile manager filename outside = some next) :
    (openCode manager filename outside).isSome := by
  obtain ⟨found, isFound, called⟩ := bind_eq_some_iff.mp called
  cases found with
  | some i => simp [openCode, isFound]
  | none =>
    obtain ⟨⟨kernel, isFile⟩, can, called⟩ := bind_eq_some_iff.mp called
    cases isFile with
    | true => simp [openCode, isFound, can]
    | false =>
      obtain ⟨probed, probing, -⟩ := bind_eq_some_iff.mp called
      simp [openCode, isFound, can, probing]

end

theorem switchTo_buffers (called : buttonExecSwitchToFile manager id = some next) :
    next.buffers = manager.buffers := by
  unfold buttonExecSwitchToFile at called
  split at called
  · cases called
    rfl
  · obtain ⟨file, -, called⟩ := bind_eq_some_iff.mp called
    cases called
    rfl

/-! ## Closing and renaming -/

theorem closeButton_paths {beyond : Beyond}
    (called : handleCloseButtonPast beyond manager id = some next) (file : Nat) :
    pathOf next file = pathOf manager file := by
  unfold handleCloseButtonPast at called
  split at called
  · cases called
    rfl
  obtain ⟨button, -, closed, -, called⟩ := bind₂_eq_some_iff.mp called
  obtain ⟨buffer, isBuffer, bar, -, called⟩ := bind₂_eq_some_iff.mp called
  cases called
  simp only [pathOf, setEdit, ← getElem?_map]
  exact congrArg (·[file]?) (map_set_eq isBuffer rfl)

theorem Tabs.distinctPaths_subset (shown : Tabs manager tabs) (distinct : DistinctPaths manager)
    {left : List Nat} (stillShown : Tabs next left) (subset : left ⊆ tabs)
    (paths : ∀ id, pathOf next id = pathOf manager id) : DistinctPaths next := by
  rw [shown.distinctPaths_iff] at distinct
  rw [stillShown.distinctPaths_iff]
  intro a isA b isB same
  rw [paths, paths] at same
  exact distinct a (subset isA) b (subset isB) same

/-- Every file keeps its path, but those with one path may have been given
another. -/
def MovesPaths (old new : Path) (manager next : BufferManager) : Prop :=
  ∀ id, pathOf next id = pathOf manager id ∨
    pathOf manager id = some old ∧ pathOf next id = some new

theorem MovesPaths.trans {last : BufferManager} (first : MovesPaths old new manager next)
    (second : MovesPaths old new next last) : MovesPaths old new manager last := by
  intro id
  rcases first id with same | ⟨isOld, isNew⟩ <;> rcases second id with stays | ⟨wasOld, becomes⟩
  · exact .inl (stays.trans same)
  · exact .inr ⟨same ▸ wasOld, becomes⟩
  · exact .inr ⟨isOld, stays.trans isNew⟩
  · exact .inr ⟨isOld, becomes⟩

theorem relabelTab_paths (relabelled : relabelTab manager oldName newName i = some next) :
    next.fileList = manager.fileList ∧
      MovesPaths (manager.fileList.path ++ oldName)
        (renamedPath (manager.fileList.path ++ oldName) newName) manager next := by
  rw [relabelTab] at relabelled
  obtain ⟨id, -, button, -, label, -, relabelled⟩ := bind₃_eq_some_iff.mp relabelled
  split at relabelled
  · cases relabelled
    exact ⟨rfl, fun _ => .inl rfl⟩
  obtain ⟨file, -, buffer, isBuffer, relabelled⟩ := bind₂_eq_some_iff.mp relabelled
  split at relabelled
  · cases relabelled
    exact ⟨rfl, fun _ => .inl rfl⟩
  rename_i sameName
  rw [ne_eq, not_not] at sameName
  rw [some.injEq, ← sameName] at relabelled
  subst relabelled
  refine ⟨rfl, fun other => ?_⟩
  by_cases isFile : file = other
  · subst isFile
    refine .inr ⟨?_, ?_⟩
    · rw [pathOf, isBuffer, sameName]
      rfl
    · simp only [pathOf]
      rw [getElem?_set_self (List.getElem?_eq_some_iff.mp isBuffer).1]
      rfl
  · refine .inl ?_
    simp only [pathOf]
    rw [getElem?_set_ne isFile]

theorem relabelLoop_paths {left : Nat}
    (relabelled : relabelLoop oldName newName left i manager = some next) :
    MovesPaths (manager.fileList.path ++ oldName)
      (renamedPath (manager.fileList.path ++ oldName) newName) manager next := by
  induction left generalizing i manager with
  | zero =>
    cases relabelled
    exact fun _ => .inl rfl
  | succ left ih =>
    obtain ⟨middle, first, rest⟩ := bind_eq_some_iff.mp relabelled
    obtain ⟨fileList, moves⟩ := relabelTab_paths first
    have others := ih rest
    rw [fileList] at others
    exact moves.trans others

theorem Tabs.distinctPaths_moved (shown : Tabs manager tabs) (distinct : DistinctPaths manager)
    (stillShown : Tabs next tabs) (moves : MovesPaths old new manager next)
    (fresh : HasTab manager old → ¬ HasTab manager new) : DistinctPaths next := by
  rw [shown.distinctPaths_iff] at distinct
  rw [shown.hasTab_iff, shown.hasTab_iff] at fresh
  rw [stillShown.distinctPaths_iff]
  intro a isA b isB same
  rcases moves a with sameA | ⟨oldA, newA⟩ <;> rcases moves b with sameB | ⟨oldB, newB⟩
  · rw [sameA, sameB] at same
    exact distinct a isA b isB same
  · rw [sameA, newB] at same
    exact absurd ⟨a, isA, same⟩ (fresh ⟨b, isB, oldB⟩)
  · rw [newA, sameB] at same
    exact absurd ⟨b, isB, same.symm⟩ (fresh ⟨a, isA, oldA⟩)
  · exact distinct a isA b isB (oldA.trans oldB.symm)

theorem Tabs.rename_distinctPaths (shown : Tabs manager tabs) (distinct : DistinctPaths manager)
    {unset : Bool} (keeps : KeepsEntries manager (.rename id unset))
    (renamed : renameFileNameControl manager id unset = some next) :
    Tabs next tabs ∧ DistinctPaths next := by
  have still : Tabs { manager with isRename := false } tabs :=
    shown.congr shown.toBarTabs rfl rfl
  have stillShown : Tabs next tabs :=
    still.of_layout (renameFileNameControl_relabelled renamed).updated.same.layout
  refine ⟨stillShown, ?_⟩
  obtain ⟨control, isControl, newName, isName, ⟨kernel, isDir⟩, -, renamed⟩ :=
    bind₃_eq_some_iff.mp renamed
  simp only at renamed
  split at renamed
  · cases renamed
    exact distinct
  rename_i other
  rw [not_or] at other
  obtain ⟨moved, -, renamed⟩ := bind_eq_some_iff.mp renamed
  obtain ⟨relabelled, loop, updated⟩ := bind_eq_some_iff.mp renamed
  have moves := relabelLoop_paths loop
  obtain ⟨listing, names, rfl⟩ := updateFileList_eq updated
  exact shown.distinctPaths_moved distinct stillShown moves
    (keeps control newName isControl isName other.1)

/-! ## Whole runs -/

theorem Tabs.entryStep_keeps (shown : Tabs manager tabs) (distinct : DistinctPaths manager)
    {event : EntryEvent} (keeps : KeepsEntries manager event)
    (stepped : entryStep manager event = some next) :
    ∃ tabs, Tabs next tabs ∧ DistinctPaths next := by
  cases event with
  | rename id unset => exact ⟨tabs, shown.rename_distinctPaths distinct keeps stepped⟩
  | around kernel controls fileList =>
    cases stepped
    exact ⟨tabs, shown.congr shown.toBarTabs rfl rfl, distinct⟩
  | call call =>
    cases call with
    | openFile filename outside =>
      obtain ⟨opened, isTabs⟩ := shown.openFile stepped
      obtain ⟨code, returned⟩ := isSome_iff_exists.mp (openCode_isSome stepped)
      exact ⟨opened, isTabs, (shown.openFile_shows_iff distinct stepped returned).2 keeps⟩
    | switchTo button =>
      have stillShown := shown.switchTo stepped
      refine ⟨tabs, stillShown, (shown.distinctPaths_congr stillShown fun _ => ?_).mpr distinct⟩
      rw [pathOf, switchTo_buffers stepped]
      rfl
    | tab =>
      obtain ⟨bar, handled, rfl⟩ := map_eq_some_iff.mp stepped
      have stillShown : Tabs { manager with fileSwitch := bar } tabs :=
        shown.congr (shown.handleTab handled) rfl rfl
      exact ⟨tabs, stillShown, (shown.distinctPaths_congr stillShown fun _ => rfl).mpr distinct⟩
    | close button beyond =>
      obtain ⟨left, stillShown, subset⟩ := shown.close stepped
      exact ⟨left, stillShown, shown.distinctPaths_subset distinct stillShown subset
        (closeButton_paths stepped)⟩

end

/-- After every sequence of calls that open, close and rename files under the
condition, no two tabs have one path.  Opening an entry then shows the tab with the
path of this entry, and leaves the paths different, exactly if the first tab with its
label has this path; if there is no such tab, exactly if no tab has this path and the
name does not mean a directory of the root. -/
theorem opening_shows_entry_iff {start manager : BufferManager} (nothing : NothingOpened start)
    (reached : Reached entryStep KeepsEntries start manager) :
    DistinctPaths manager ∧ ∀ filename outside next code,
      fileSwitchBarOpenFile manager filename outside = some next →
        openCode manager filename outside = some code →
          ((code = 0 → ShowsTab next (manager.fileList.path ++ filename) ∧ DistinctPaths next) ↔
            OpensEntry manager filename outside) := by
  have keeps : ∀ state event next, (∃ tabs, Tabs state tabs ∧ DistinctPaths state) →
      KeepsEntries state event → entryStep state event = some next →
        ∃ tabs, Tabs next tabs ∧ DistinctPaths next := by
    rintro state event next ⟨tabs, shown, distinct⟩ keepsEntries stepped
    exact shown.entryStep_keeps distinct keepsEntries stepped
  have initial : DistinctPaths start := by
    rw [nothing.tabs.distinctPaths_iff]
    simp
  obtain ⟨tabs, shown, distinct⟩ := reached.invariant keeps ⟨[], nothing.tabs, initial⟩
  exact ⟨distinct, fun filename outside next code called returned =>
    (shown.openFile_shows_iff distinct called returned).1⟩

theorem opening_shows_entry_a :
    NothingOpened listed ∧ ∃ manager, Reached entryStep KeepsEntries listed manager ∧
      manager.fileSwitch.nFiles = 1 ∧ DistinctPaths manager ∧
        ∀ next code, fileSwitchBarOpenFile manager [97] nothing = some next →
          openCode manager [97] nothing = some code → code = 0 → ShowsTab next [97] := by
  have start : NothingOpened listed := ⟨⟨⟨0, 0, 0⟩, by decide⟩, by decide, by decide⟩
  let manager := (fileSwitchBarOpenFile listed [97] nothing).get (by decide)
  have opens : OpensEntry listed [97] nothing := by
    refine (opensEntry_opened_iff (by decide) (some_get (by decide)).symm).mpr ?_
    have noTab : listed.fileSwitch.nFiles = 0 := by decide
    rintro ⟨i, inside, -⟩
    omega
  have reached : Reached entryStep KeepsEntries listed manager :=
    @Reached.step _ _ _ _ _ _ _ (.call (.openFile [97] nothing)) .start opens
      (some_get _).symm
  obtain ⟨distinct, shows⟩ := opening_shows_entry_iff start reached
  have again : OpensEntry manager [97] nothing :=
    (opensEntry_found_iff (i := 0) (by decide)).mpr (by decide)
  exact ⟨start, manager, reached, by decide, distinct, fun next code called returned isZero =>
    ((shows [97] nothing next code called returned).mpr again isZero).1⟩

/-- Open `a` from the root, enter the directory `d`. -/
def openedThenEntered : BufferManager :=
  (run entryStep twoNamed
    [.call (.openFile [97] nothing), .call (.openFile [100] nothing)]).get (by decide)

/-- Open `a` and `b`, type the name `b` for `a`, and finish the renaming. -/
def renamingOpened : List EntryEvent :=
  [.call (.openFile [97] nothing), .call (.openFile [98] nothing),
    .around listed.kernel [{ fileNameControlAt 0 [98] with oldName := [97] }] listed.fileList,
    .rename 0 false]

/-- A file is not shown when a file of another directory with its name is open, and
a renaming that fails on the disk still gives a tab the path of another tab. -/
theorem entry_not_shown :
    NothingOpened twoNamed ∧
    run entryStep twoNamed
      [.call (.openFile [97] nothing), .call (.openFile [100] nothing)] =
        some openedThenEntered ∧
    openedThenEntered.fileList.path = [100, slash] ∧
    child openedThenEntered.kernel 2 [97] = some 4 ∧
    ∃ next, fileSwitchBarOpenFile openedThenEntered [97] nothing = some next ∧
      openCode openedThenEntered [97] nothing = some 0 ∧
      next.fileSwitch.current = some 0 ∧ pathOf next 0 = some [97] ∧
    ∃ renamed, run entryStep listed renamingOpened = some renamed ∧
      renamed.fileSwitch.nFiles = 2 ∧
      tabPath renamed 0 = some [98] ∧ tabPath renamed 1 = some [98] := by
  have shows : (fileSwitchBarOpenFile openedThenEntered [97] nothing).map (fun next =>
      (next.fileSwitch.current, pathOf next 0)) = some (some 0, some [97]) := by decide
  obtain ⟨next, called, isShown⟩ := map_eq_some_iff.mp shows
  rw [Prod.mk.injEq] at isShown
  have clashes : (run entryStep listed renamingOpened).map (fun renamed =>
      (renamed.fileSwitch.nFiles, tabPath renamed 0, tabPath renamed 1)) =
        some (2, some [98], some [98]) := by decide
  obtain ⟨renamed, ran, clash⟩ := map_eq_some_iff.mp clashes
  rw [Prod.mk.injEq, Prod.mk.injEq] at clash
  exact ⟨⟨⟨⟨0, 0, 0⟩, by decide⟩, by decide, by decide⟩, (some_get _).symm, by decide,
    by decide, next, called, by decide, isShown.1, isShown.2, renamed, ran, clash⟩

end XEditor.Gui
