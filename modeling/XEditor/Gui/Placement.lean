import XEditor.Gui.Tabs

/-!
# The actions of the program

Every message makes a sequence of actions: the changes of texts and of the file
list, operations on the tabs, and assignments to the fields that say where the
input goes.  What all actions keep holds in every state of a run.  The
components stay where they were made, but for the tabs, which are put side by
side, and the offsets by which the edits are scrolled.
-/

namespace XEditor.Gui

open List Option Edit Kernel Run Text BufferManager

/-- One action of the program. -/
inductive Action (manager : BufferManager) : BufferManager → Prop
  | update {next : BufferManager} (update : Update manager next) : Action manager next
  | tabs {next : BufferManager} (call : TabCall) (called : tabCall manager call = some next) :
      Action manager next
  | focus (focus : Option Focus) : Action manager { manager with focus := focus }
  | cursor (ref : EditRef) (type : FocusType) : Action manager (manager.focusOn ref type)
  | rename : Action manager { manager with isRename := true }
  | select (id : Nat) :
      Action manager { manager with
        fileList := { manager.fileList with fileSelected := some id } }
  | search (ifSearch searchInput : Bool) :
      Action manager { manager with
        fileSwitch := { manager.fileSwitch with
          ifSearch := ifSearch
          searchInput := searchInput } }
  | place {id : Nat} {button : TabButton} (read : manager.tabButtons[id]? = some button)
      (x : Int) :
      Action manager { manager with
        tabButtons := manager.tabButtons.set id { button with
          area := { button.area with x := x } } }
  | tools (buttons : List Button) :
      Action manager { manager with toolBar := { manager.toolBar with buttons := buttons } }

/-- A sequence of actions. -/
abbrev Acted : BufferManager → BufferManager → Prop :=
  Relation.ReflTransGen Action

section

variable {manager next last : BufferManager}

theorem Action.acted (action : Action manager next) : Acted manager next :=
  .single action

theorem Updated.acted (updated : Updated manager next) : Acted manager next :=
  Relation.ReflTransGen.mono (fun _ _ update => Action.update update) manager next updated

theorem Edited.acted (edited : Edited manager next) : Acted manager next :=
  edited.updated.acted

theorem Change.acted (change : Change manager next) : Acted manager next :=
  change.edited.acted

end

/-! ## Every message is a sequence of actions -/

variable {table : PinyinTable}

variable {id i : Nat} {message : Message} {search pinyin : Unset}

section

variable {manager next : BufferManager} {x y : Int} {mouseOpt : MouseOpt} {outside : Outside}

theorem handleMouseTabButton_acted {button : TabButton}
    (read : manager.tabButtons[id]? = some button)
    (handled : handleMouseTabButton manager id button mouseOpt = some next) :
    Acted manager next := by
  rw [handleMouseTabButton] at handled
  split_ifs at handled
  · exact (Action.tabs (.switchTo id) handled).acted
  · have closed := handleCloseButtonPast_eq ⟨none, none⟩ read handled
    exact (Action.tabs (.close id ⟨none, none⟩) closed).acted
  · cases handled
    exact .refl

theorem mouseFocus_acted (manager : BufferManager) (ref : EditRef) (mouseOpt : MouseOpt) :
    Acted manager (mouseFocus manager ref mouseOpt) := by
  rw [mouseFocus]
  split
  · exact .refl
  · exact (Action.cursor ref .textEdit).acted

theorem handleMouseBelowTabs_acted
    (handled : handleMouseBelowTabs manager x y mouseOpt = some next) : Acted manager next := by
  rw [handleMouseBelowTabs] at handled
  split at handled
  · cases handled
    exact .refl
  split at handled
  · obtain ⟨edit, edited, handled⟩ := bind_eq_some_iff.mp handled
    cases handled
    have kept := congrArg frame (handleMouseTextEdit_area edited)
    exact ((Action.search _ true).acted.trans (Change.search kept).acted).trans
      (mouseFocus_acted _ _ _)
  · obtain ⟨buffer, read, handled⟩ := bind_eq_some_iff.mp handled
    split at handled
    · obtain ⟨edit, edited, handled⟩ := bind_eq_some_iff.mp handled
      cases handled
      have kept := congrArg frame (handleMouseTextEdit_area edited)
      exact (Change.file read kept).acted.trans (mouseFocus_acted _ _ _)
    · cases handled
      exact .refl

theorem handleMouseFileSwitchBar_acted
    (handled : handleMouseFileSwitchBar manager x y mouseOpt = some next) :
    Acted manager next := by
  obtain ⟨pressed, -, handled⟩ := bind_eq_some_iff.mp handled
  cases pressed with
  | none => exact handleMouseBelowTabs_acted handled
  | some i =>
    obtain ⟨id, -, button, read, handled⟩ := bind₂_eq_some_iff.mp handled
    exact handleMouseTabButton_acted read handled

theorem handleMouseFiles_acted {files : List Nat}
    (handled : handleMouseFiles manager x y mouseOpt outside files = some next) :
    Acted manager next := by
  induction files generalizing manager with
  | nil =>
    cases handled
    exact .refl
  | cons id rest ih =>
    obtain ⟨control, -, handled⟩ := bind_eq_some_iff.mp handled
    split at handled
    · have selected := (@Action.select manager id).acted
      cases mouseOpt with
      | leftPress =>
        obtain ⟨filename, -, opened⟩ := bind_eq_some_iff.mp handled
        exact selected.tail (.tabs (.openFile filename outside) opened)
      | rightPress =>
        obtain ⟨control, read, handled⟩ := bind_eq_some_iff.mp handled
        cases handled
        exact ((selected.tail .rename).trans (Change.control read _).acted).tail (.cursor _ _)
      | leftRelease | rightRelease | move => exact selected.trans (ih handled)
    · exact ih handled

theorem dispatchMouse_acted (handled : dispatchMouse manager x y mouseOpt outside = some next) :
    Acted manager next := by
  rw [dispatchMouse] at handled
  split_ifs at handled
  · exact (Action.focus _).acted.trans (handleMouseFileSwitchBar_acted handled)
  · exact (Action.focus _).acted.trans (handleMouseFiles_acted handled)
  · exact (Action.focus _).acted.trans (handleMouseToolBar_updated handled).acted
  · cases handled
    exact .refl

theorem handleMouseBufferManager_acted
    (handled : handleMouseBufferManager manager x y mouseOpt outside = some next) :
    Acted manager next := by
  simp only [handleMouseBufferManager] at handled
  have start := (@Action.search manager manager.fileSwitch.ifSearch false).acted
  split at handled
  · exact start.trans (handleMouseFileSwitchBar_acted handled)
  · obtain ⟨renamed, finished, cleared, clearing, handled⟩ := bind₂_eq_some_iff.mp handled
    exact ((start.trans (finishRename_updated finished).acted).trans
      (clearCurrentSelection_edited clearing).acted).trans (dispatchMouse_acted handled)

theorem toggleSearch_acted (manager : BufferManager) : Acted manager (toggleSearch manager) := by
  have ended : Change manager (manager.setSearchEdit { manager.fileSwitch.search.edit with
      text := moveToEnd manager.fileSwitch.search.edit.text }) := .search rfl
  exact (ended.acted.tail (.search _ true)).tail (.cursor .search .lineEdit)

theorem searchCurrent_acted (searched : searchCurrent manager id = some next) :
    Acted manager next := by
  obtain ⟨buffer, read, pattern, -, ⟨edit, found⟩, selected, searched⟩ :=
    bind₃_eq_some_iff.mp searched
  have edited := Change.file read (congrArg frame (searchSelect_area selected))
  simp only at searched
  split at searched
  · cases searched
    exact edited.acted.tail (.cursor (.file id) .textEdit)
  · cases searched
    exact Edited.acted (edited.edited.tail (.status "No results."))

theorem BarKey.acted {c : Int} (barKey : BarKey manager c next) : Acted manager next := by
  cases barKey with
  | switched _ called =>
    exact (Action.tabs .tab (map_eq_some_iff.mpr ⟨_, called, rfl⟩)).acted
  | toggled _ => exact toggleSearch_acted manager
  | searched _ _ _ called => exact searchCurrent_acted called
  | typed _ _ _ edited => exact edited.acted
  | file _ _ _ updated => exact updated.acted

theorem Keyed.acted {c : Int} (keyed : Keyed table manager c next) : Acted manager next := by
  cases keyed with
  | pinyin _ _ _ edited => exact edited.acted
  | name _ edited => exact edited.acted
  | bar _ _ barKey => exact (@Change.status manager "").acted.trans barKey.acted
  | other _ _ updated => exact updated.acted

theorem placeTabs_eq {left : Nat} {x : Int} (placed : placeTabs left i x manager = some next) :
    ∃ tabButtons, next = { manager with tabButtons := tabButtons } := by
  induction left generalizing i x manager with
  | zero =>
    rw [placeTabs, some.injEq] at placed
    exact ⟨manager.tabButtons, placed.symm⟩
  | succ left ih =>
    obtain ⟨id, -, button, -, placed⟩ := bind₂_eq_some_iff.mp placed
    obtain ⟨tabButtons, rfl⟩ := ih placed
    exact ⟨tabButtons, rfl⟩

theorem placeTabs_acted {left : Nat} {x : Int} (placed : placeTabs left i x manager = some next) :
    Acted manager next := by
  induction left generalizing i x manager with
  | zero =>
    cases placed
    exact .refl
  | succ left ih =>
    obtain ⟨id, -, button, read, placed⟩ := bind₂_eq_some_iff.mp placed
    exact (Action.place read x).acted.trans (ih placed)

theorem drawBufferManager_acted (drawn : drawBufferManager manager = some next) :
    Acted manager next := by
  obtain ⟨named, names, placed, tabs, shown, edits, drawn⟩ := bind₃_eq_some_iff.mp drawn
  cases drawn
  exact (((drawFileNames_edited names).acted.trans (placeTabs_acted tabs)).trans
    (drawCurrent_edited edits).acted).tail (.tools _)

/-- What a message does is a sequence of actions. -/
theorem step_acted (stepped : manager.step table message = some next) : Acted manager next := by
  cases message with
  | mouse x y mouseOpt outside => exact handleMouseBufferManager_acted stepped
  | keyboard c outside => exact (handleKeyboardBufferManager_keyed stepped).acted
  | draw => exact drawBufferManager_acted stepped

end

/-! ## What all actions keep -/

/-- What holds of a state and is kept by every action holds after a sequence of
actions. -/
theorem Acted.invariant {holds : BufferManager → Prop}
    (keeps : ∀ manager next, holds manager → Action manager next → holds next)
    {manager next : BufferManager} (initial : holds manager) (acted : Acted manager next) :
    holds next := by
  induction acted with
  | refl => exact initial
  | tail _ action ih => exact keeps _ _ ih action

/-- Where the components are. -/
structure Placement where
  area : Area
  listArea : Area
  toolArea : Area
  barArea : Area
  searchArea : Area
  searchFrame : Int × Int × Int × Int
  nameAreas : List Area
  tabAreas : List Area
  bufferAreas : List Area
  editFrames : List (Int × Int × Int × Int)

/-- Where the components of a state are. -/
def BufferManager.placement (manager : BufferManager) : Placement where
  area := manager.area
  listArea := manager.fileList.area
  toolArea := manager.toolBar.area
  barArea := manager.fileSwitch.area
  searchArea := manager.fileSwitch.search.area
  searchFrame := frame manager.fileSwitch.search.edit.area
  nameAreas := manager.controls.map (·.area)
  tabAreas := manager.tabButtons.map (·.area)
  bufferAreas := manager.buffers.map (·.area)
  editFrames := manager.buffers.map fun buffer => frame buffer.edit.area

/-- The components are where they have been made.  Each file name has a place of
its own in the list, and the tabs may be anywhere in their line. -/
structure Placement.AsMade (placement : Placement) : Prop where
  area : placement.area = ⟨0, 0, 800, 600, 0, 0⟩
  list : placement.listArea = ⟨10, 30, 90, 570, 0, 0⟩
  tools : placement.toolArea = ⟨0, 0, 700, 30, 0, 0⟩
  bar : placement.barArea = ⟨115, 23, 700, 700, 0, 0⟩
  search : placement.searchArea = ⟨500, 0, 200, 18, 0, 0⟩
  searchEdit : placement.searchFrame = (0, 0, 100, 16)
  names : ∀ area ∈ placement.nameAreas, area.x = 0 ∧ area.width = 100 ∧ 0 ≤ area.y
  tabs : ∀ area ∈ placement.tabAreas, area.y = 0 ∧ area.height = 20
  buffers : ∀ area ∈ placement.bufferAreas, area = ⟨0, 20, 700, 400, 0, 0⟩
  edits : ∀ own ∈ placement.editFrames, own = (0, 0, 700, 400)

/-- The components of a state are where they have been made. -/
def BufferManager.Placed (manager : BufferManager) : Prop :=
  manager.placement.AsMade

section

variable {manager next : BufferManager}

theorem BufferManager.Placed.congr (placed : manager.Placed)
    (same : next.placement = manager.placement) : next.Placed := by
  rw [BufferManager.Placed, same]
  exact placed

theorem placement_of_maps {controls : List FileNameControl} {tabButtons : List TabButton}
    {buffers : List FileBuffer}
    (names : controls.map (·.area) = manager.controls.map (·.area))
    (tabs : tabButtons.map (·.area) = manager.tabButtons.map (·.area))
    (areas : buffers.map (·.area) = manager.buffers.map (·.area))
    (edits : (buffers.map fun buffer => frame buffer.edit.area) =
      manager.buffers.map fun buffer => frame buffer.edit.area) :
    { manager with controls := controls, tabButtons := tabButtons, buffers := buffers }.placement =
      manager.placement := by
  simp only [placement, names, tabs, areas, edits]

theorem Change.placement (change : Change manager next) : next.placement = manager.placement := by
  cases change with
  | kernel | clipBoard | pinyin | status => rfl
  | search kept => simp only [placement, setSearchEdit, kept]
  | control read edit => exact placement_of_maps (map_set_eq read rfl) rfl rfl rfl
  | file read kept => exact placement_of_maps rfl rfl (map_set_eq read rfl) (map_set_eq read kept)
  | path read filepathname =>
    exact placement_of_maps rfl rfl (map_set_eq read rfl) (map_set_eq read rfl)
  | label read edit => exact placement_of_maps rfl (map_set_eq read rfl) rfl rfl

theorem fileNameControlAt_placed (names : List Name) :
    ∀ area ∈ (names.mapIdx fileNameControlAt).map (·.area),
      area.x = 0 ∧ area.width = 100 ∧ 0 ≤ area.y := by
  intro area isArea
  obtain ⟨control, isControl, rfl⟩ := List.mem_map.mp isArea
  obtain ⟨i, -, rfl⟩ := mem_mapIdx.mp isControl
  exact ⟨rfl, rfl, Int.mul_nonneg (Int.natCast_nonneg i) (by decide)⟩

theorem Update.placed (placed : manager.Placed) (update : Update manager next) : next.Placed := by
  cases update with
  | change change => exact placed.congr change.placement
  | endRename => exact placed.congr rfl
  | relist names =>
    refine { placed with names := ?_ }
    intro area isArea
    rw [placement, map_append, mem_append] at isArea
    rcases isArea with before | new
    · exact placed.names area before
    · exact fileNameControlAt_placed names area new

theorem Updated.placed (placed : manager.Placed) (updated : Updated manager next) :
    next.Placed := by
  induction updated with
  | refl => exact placed
  | tail _ update ih => exact update.placed ih

end

/-! ### Operations on the tabs -/

section

variable {bar nextBar : FileSwitchBar} {manager next : BufferManager}

theorem closeTabPast_sameBar {beyond : Beyond} (closed : closeTabPast beyond bar i = some nextBar) :
    SameBar bar nextBar := by
  rw [closeTabPast] at closed
  split at closed
  · exact closeTab_sameBar closed
  · obtain ⟨file, -, closed⟩ := bind_eq_some_iff.mp closed
    cases closed
    exact ⟨rfl, rfl, rfl, rfl⟩

theorem SameBar.placement (same : SameBar manager.fileSwitch bar) :
    { manager with fileSwitch := bar }.placement = manager.placement := by
  simp only [BufferManager.placement, same.area, same.search]

theorem openTab_placed (placed : manager.Placed) {filename : Name} {outside : Outside}
    (called : openTab manager filename outside = some next) : next.Placed := by
  obtain ⟨⟨kernel, text, code⟩, -, called⟩ := bind_eq_some_iff.mp called
  cases called
  have concat {α : Type} {holds : α → Prop} {entries : List α} {new : α}
      (before : ∀ entry ∈ entries, holds entry) (isNew : holds new) :
      ∀ entry ∈ entries ++ [new], holds entry := by
    intro entry isEntry
    rcases mem_append.mp isEntry with old | last
    · exact before entry old
    · exact mem_singleton.mp last ▸ isNew
  refine { placed with tabs := ?_, buffers := ?_, edits := ?_ }
  · simp only [placement, addTab, focusOn, map_append, map_singleton]
    exact concat placed.tabs ⟨rfl, rfl⟩
  · simp only [placement, addTab, focusOn, map_append, map_singleton]
    exact concat placed.buffers rfl
  · simp only [placement, addTab, focusOn, map_append, map_singleton]
    exact concat placed.edits rfl

theorem handleCloseButtonPast_placement {beyond : Beyond}
    (closed : handleCloseButtonPast beyond manager id = some next) :
    next.placement = manager.placement := by
  unfold handleCloseButtonPast at closed
  split at closed
  · rw [some.injEq] at closed
    rw [closed]
  obtain ⟨button, readButton, file, -, closed⟩ := bind₂_eq_some_iff.mp closed
  obtain ⟨buffer, readBuffer, bar, isBar, closed⟩ := bind₂_eq_some_iff.mp closed
  cases closed
  have cleared := @Change.file { manager with fileSwitch := bar } file buffer
    { buffer.edit with text := lineEditSetStr [] } readBuffer rfl
  have relabelled := @Change.label ({ manager with fileSwitch := bar }.setEdit file buffer
    { buffer.edit with text := lineEditSetStr [] }) id button readButton
      { button.edit with text := lineEditSetStr [] }
  exact relabelled.placement.trans (cleared.placement.trans (closeTabPast_sameBar isBar).placement)

theorem tabCall_placed (placed : manager.Placed) {call : TabCall}
    (called : tabCall manager call = some next) : next.Placed := by
  cases call with
  | openFile filename outside =>
    cases openFile_opens called with
    | shown | unchanged => exact placed.congr rfl
    | @opened kernel _ stays room called =>
      have probed : { manager with kernel := kernel }.Placed := placed.congr rfl
      exact openTab_placed probed called
    | entered enters called =>
      refine (updateFileList_updated called).placed ?_
      exact placed.congr rfl
  | switchTo button =>
    rw [tabCall, buttonExecSwitchToFile] at called
    split at called
    · cases called
      exact placed
    · obtain ⟨file, -, called⟩ := bind_eq_some_iff.mp called
      cases called
      exact placed.congr rfl
  | tab =>
    obtain ⟨bar, handled, rfl⟩ := map_eq_some_iff.mp called
    exact placed.congr (handleTab_sameBar handled).placement
  | close button beyond => exact placed.congr (handleCloseButtonPast_placement called)

end

/-! ### Whole runs -/

section

variable {manager next : BufferManager}

theorem Action.placed (placed : manager.Placed) (action : Action manager next) : next.Placed := by
  cases action with
  | update update => exact update.placed placed
  | tabs call called => exact tabCall_placed placed called
  | focus | cursor | rename | select | search | tools => exact placed.congr rfl
  | @place id button read x =>
    refine { placed with tabs := ?_ }
    intro area isArea
    rw [placement, map_set] at isArea
    rcases mem_or_eq_of_mem_set isArea with old | rfl
    · exact placed.tabs area old
    · exact placed.tabs button.area (List.mem_map.mpr ⟨button, mem_of_getElem? read, rfl⟩)

theorem Action.tabs_kept {tabs : List Nat} (shown : Tabs manager tabs)
    (action : Action manager next) : ∃ tabs, Tabs next tabs := by
  cases action with
  | update update => exact ⟨tabs, shown.of_layout update.same.layout⟩
  | tabs call called => exact shown.call called
  | focus | cursor | rename | select | search | tools =>
    exact ⟨tabs, shown.congr ⟨shown.count, shown.room, shown.buttons, shown.files,
      shown.distinct, shown.current, shown.noCurrent⟩ rfl rfl⟩
  | place read x => exact ⟨tabs, shown.congr shown.toBarTabs rfl (length_set)⟩

variable {kernel : State}

/-- The window that `make_BufferManager` lists the root directory in. -/
theorem makeBufferManager_updated (made : makeBufferManager kernel search pinyin = some manager) :
    ∃ start : BufferManager, Updated start manager ∧ NothingOpened start ∧ start.Placed ∧
      start.focus = none ∧ start.isRename = false := by
  rw [makeBufferManager, bind_eq_bind, bind_eq_some_iff] at made
  obtain ⟨input, -, made⟩ := made
  refine ⟨_, updateFileList_updated made, ⟨⟨search, rfl⟩, rfl, rfl⟩, ?_, rfl, rfl⟩
  exact ⟨rfl, rfl, rfl, rfl, rfl, rfl, by simp [placement],
    by simp [placement], by simp [placement],
    by simp [placement]⟩

/-- Every message keeps the components in place and the bar consistent. -/
theorem step_placed (holds : manager.Placed ∧ ∃ tabs, Tabs manager tabs)
    (stepped : manager.step table message = some next) : next.Placed ∧ ∃ tabs, Tabs next tabs := by
  have kept : ∀ before after : BufferManager, (before.Placed ∧ ∃ tabs, Tabs before tabs) →
      Action before after → after.Placed ∧ ∃ tabs, Tabs after tabs := by
    rintro before after ⟨placed, tabs, shown⟩ action
    exact ⟨action.placed placed, action.tabs_kept shown⟩
  exact (step_acted stepped).invariant kept holds

theorem makeBufferManager_placed (made : makeBufferManager kernel search pinyin = some manager) :
    manager.Placed ∧ ∃ tabs, Tabs manager tabs := by
  obtain ⟨start, updated, nothing, placed, -, -⟩ := makeBufferManager_updated made
  exact ⟨updated.placed placed, [], nothing.tabs.of_layout updated.same.layout⟩

/-- In every state of a run the components are where they have been made, and
the bar shows a list of tabs. -/
theorem placed_throughout {meets : BufferManager → Message → Prop} {start : BufferManager}
    (made : makeBufferManager kernel search pinyin = some start)
    (reached : Reached (BufferManager.step table) meets start manager) :
    manager.Placed ∧ ∃ tabs, Tabs manager tabs := by
  have keeps : ∀ state message next, (state.Placed ∧ ∃ tabs, Tabs state tabs) →
      meets state message → state.step table message = some next →
        next.Placed ∧ ∃ tabs, Tabs next tabs :=
    fun _ _ _ holds _ stepped => step_placed holds stepped
  exact reached.invariant keeps (makeBufferManager_placed made)

end

end XEditor.Gui
