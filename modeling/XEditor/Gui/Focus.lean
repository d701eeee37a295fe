import XEditor.Gui.Placement

/-!
# Where the input goes

While the file switch bar has the focus a printable key goes to the search frame
or to the current file, as `searchInput` decides.  A pinyin commit goes to the
edit that `cursor_focus` points to, and there the cursor is drawn.  The handlers
write `current`, `searchInput` and `cursor_focus` independently of each other;
this module says after which messages they agree.
-/

namespace XEditor.Gui

open List Option Edit Kernel Run Text BufferManager

/-- The edit that gets the input when a file is current. -/
def inputOf (searchInput : Bool) (file : Nat) : EditRef :=
  if searchInput = true then .search else .file file

namespace BufferManager

/-- If a file is current, `cursor_focus` points to the edit that gets the
input. -/
def CurrentAgrees (manager : BufferManager) : Prop :=
  ∀ file ∈ manager.fileSwitch.current,
    manager.cursorFocus = some (inputOf manager.fileSwitch.searchInput file)

/-- If the file switch bar has the focus and a file is current, `cursor_focus`
points to the edit that gets the input. -/
def TargetsAgree (manager : BufferManager) : Prop :=
  manager.focus = some .fileSwitch → manager.CurrentAgrees

end BufferManager

section

variable {manager next : BufferManager}

theorem Same.currentAgrees_iff (same : Same manager next) :
    next.CurrentAgrees ↔ manager.CurrentAgrees := by
  rw [CurrentAgrees, CurrentAgrees, same.current, same.cursorFocus, same.searchInput]

theorem Same.targetsAgree_iff (same : Same manager next) :
    next.TargetsAgree ↔ manager.TargetsAgree := by
  rw [TargetsAgree, TargetsAgree, same.focus, same.currentAgrees_iff]

end

/-! ## The mouse in the file switch bar -/

/-- The file of the tab behind a tab, or in front of it if it is the last one. -/
def neighbour (fileSwitch : FileSwitchBar) (i : Nat) : Option Nat :=
  if i + 1 = fileSwitch.nFiles then
    if i = 0 then none else fileSwitch.files[i - 1]?.join
  else fileSwitch.files[i + 1]?.join

/-- Whether the mouse is over an edit of the bar. -/
def overEdit (manager : BufferManager) (x y : Int) : Bool :=
  manager.fileSwitch.current.any fun file =>
    overSearch manager.fileSwitch x y ||
      (manager.buffers[file]?).any fun buffer => isPosInArea buffer.area x y

/-- `cursor_focus` points to the edit that gets the input when the mouse is
somewhere over the bar. -/
def HoverKeeps (manager : BufferManager) (x y : Int) : Prop :=
  ∀ file ∈ manager.fileSwitch.current,
    manager.cursorFocus = some (inputOf (overSearch manager.fileSwitch x y) file)

/-- The condition on a mouse message to the bar.  A tab that is closed has the file
with the cursor beside it, or is the only one.  Otherwise an edit is clicked or
released, or the cursor is already in the edit that gets the input. -/
def BarKeeps (manager : BufferManager) (x y : Int) (mouseOpt : MouseOpt) : Prop :=
  (∀ i ∈ (pressedTab manager x y mouseOpt).join, mouseOpt = .rightPress →
    ∀ file ∈ neighbour manager.fileSwitch i, manager.cursorFocus = some (.file file)) ∧
  ((pressedTab manager x y mouseOpt).join = none →
    (mouseOpt ≠ .move ∧ overEdit manager x y = true) ∨ HoverKeeps manager x y)

section

variable {manager next : BufferManager} {x y : Int} {mouseOpt : MouseOpt}

variable {id tab : Nat}

/-- A tab that is pressed is one of the tabs. -/
theorem pressedTab_lt {i : Nat} (pressed : pressedTab manager x y mouseOpt = some (some i)) :
    i < manager.fileSwitch.nFiles := by
  rw [pressedTab] at pressed
  split at pressed
  · have bound := (findTab_hit pressed).1
    rwa [Nat.zero_add] at bound
  · cases pressed

/-- The button of a tab that is pressed is found. -/
theorem exists_tabOf {i : Nat} (pressed : pressedTab manager x y mouseOpt = some (some i))
    (button : manager.fileSwitch.buttons[i]?.join = some id) :
    ∃ tab, tabOf manager.fileSwitch id = some tab := by
  rw [← isSome_iff_exists, tabOf, List.findIdx?_isSome, List.any_eq_true]
  refine ⟨some id, ?_, by simp⟩
  apply mem_of_getElem?
  rw [getElem?_take_of_lt (pressedTab_lt pressed)]
  exact join_eq_some_iff.mp button

/-- Closing a tab makes its neighbour current. -/
theorem closeTab_current {bar closed : FileSwitchBar} (inside : tab < bar.nFiles)
    (closes : closeTab bar tab = some closed) : closed.current = neighbour bar tab := by
  rw [closeTab] at closes
  rw [neighbour]
  by_cases last : tab = bar.nFiles - 1
  · rw [if_pos last] at closes
    rw [if_pos (by omega)]
    by_cases only : tab = 0
    · rw [if_pos only] at closes ⊢
      cases closes
      rfl
    · rw [if_neg only] at closes ⊢
      obtain ⟨file, isFile, closes⟩ := bind_eq_some_iff.mp closes
      cases closes
      rw [isFile]
      rfl
  · rw [if_neg last] at closes
    rw [if_neg (by omega)]
    obtain ⟨files, shifted, buttons, -, file, isFile, closes⟩ := bind₃_eq_some_iff.mp closes
    cases closes
    rw [← shiftLoopPast_eq none shifted, getElem?_shiftLoopPast] at isFile
    split at isFile
    · rw [← some.inj isFile]
      cases bar.files[tab + 1]? <;> rfl
    · rename_i short
      rw [getElem?_eq_none (by omega)] at isFile
      cases isFile

variable (searchInput : manager.fileSwitch.searchInput = false)

include searchInput

/-- A click on a tab moves the cursor to its file. -/
theorem switchToFile_agrees (located : tabOf manager.fileSwitch id = some tab)
    (switched : buttonExecSwitchToFile manager id = some next) :
    next.focus = manager.focus ∧ next.CurrentAgrees := by
  rw [buttonExecSwitchToFile, located] at switched
  obtain ⟨file, -, switched⟩ := bind_eq_some_iff.mp switched
  cases switched
  refine ⟨rfl, ?_⟩
  intro current isCurrent
  obtain rfl : file = current := some.inj isCurrent
  simp [focusOn, inputOf, searchInput]

/-- Closing a tab leaves the cursor where it is. -/
theorem closeButton_agrees_iff {button : TabButton} (inside : tab < manager.fileSwitch.nFiles)
    (located : tabOf manager.fileSwitch id = some tab)
    (closed : handleCloseButton manager id button = some next) :
    next.focus = manager.focus ∧
      (next.CurrentAgrees ↔
        ∀ file ∈ neighbour manager.fileSwitch tab, manager.cursorFocus = some (.file file)) := by
  rw [handleCloseButton, located] at closed
  obtain ⟨file, -, buffer, -, fileSwitch, bar, closed⟩ := bind₃_eq_some_iff.mp closed
  cases closed
  have noInput : fileSwitch.searchInput = false :=
    (closeTab_sameBar bar).searchInput.trans searchInput
  refine ⟨rfl, ?_⟩
  simp [CurrentAgrees, setEdit, inputOf, noInput, closeTab_current inside bar]

/-- Where no tab is pressed, an edit takes the cursor unless the mouse only
moves over it. -/
theorem belowTabs_agrees_iff
    (handled : handleMouseBelowTabs manager x y mouseOpt = some next) :
    next.focus = manager.focus ∧
      (next.CurrentAgrees ↔
        (mouseOpt ≠ .move ∧ overEdit manager x y = true) ∨ HoverKeeps manager x y) := by
  rw [handleMouseBelowTabs] at handled
  split at handled
  · rename_i noCurrent
    cases handled
    simp [CurrentAgrees, HoverKeeps, noCurrent]
  · rename_i id current
    split at handled
    · rename_i inside
      obtain ⟨edit, -, handled⟩ := bind_eq_some_iff.mp handled
      cases handled
      by_cases moved : mouseOpt = .move
      · simp [mouseFocus, moved, CurrentAgrees, setSearchEdit, HoverKeeps, current, inside]
      · simp [mouseFocus, moved, CurrentAgrees, setSearchEdit,
          focusOn, overEdit, current, inside, inputOf]
    · rename_i notOver
      rw [Bool.not_eq_true] at notOver
      obtain ⟨buffer, read, handled⟩ := bind_eq_some_iff.mp handled
      split at handled
      · rename_i inside
        obtain ⟨edit, -, handled⟩ := bind_eq_some_iff.mp handled
        cases handled
        by_cases moved : mouseOpt = .move
        · simp [mouseFocus, moved, CurrentAgrees, setEdit,
            HoverKeeps, current, notOver, searchInput]
        · simp [mouseFocus, moved, CurrentAgrees, setEdit,
            focusOn, overEdit, current, read, inside, searchInput, inputOf]
      · rename_i outside
        cases handled
        simp [CurrentAgrees, HoverKeeps, overEdit, current, notOver, read, outside, searchInput]

/-- After a mouse message to the bar the targets agree exactly under the
condition. -/
theorem bar_agrees_iff {tabs : List Nat} (shown : BarTabs manager.fileSwitch tabs)
    (handled : handleMouseFileSwitchBar manager x y mouseOpt = some next) :
    next.focus = manager.focus ∧
      (next.CurrentAgrees ↔
        BarKeeps manager (mousePosTransform manager.fileSwitch.area x y).1
          (mousePosTransform manager.fileSwitch.area x y).2 mouseOpt) := by
  obtain ⟨pressed, pressed_eq, handled⟩ := bind_eq_some_iff.mp handled
  rw [BarKeeps, pressed_eq]
  cases pressed with
  | none =>
    obtain ⟨focus, agrees⟩ := belowTabs_agrees_iff searchInput handled
    exact ⟨focus, by simpa using agrees⟩
  | some i =>
    obtain ⟨id, slot, button, -, handled⟩ := bind₂_eq_some_iff.mp handled
    obtain ⟨tab, located⟩ := exists_tabOf pressed_eq slot
    obtain ⟨inside, isTab⟩ := shown.tabOf_eq located
    have isPress : mouseOpt = .leftPress ∨ mouseOpt = .rightPress := by
      by_contra notPress
      rw [pressedTab, if_neg notPress] at pressed_eq
      cases pressed_eq
    rw [handleMouseTabButton] at handled
    rcases isPress with rfl | rfl
    · rw [if_pos ⟨rfl, button.switches⟩] at handled
      obtain ⟨focus, agrees⟩ := switchToFile_agrees searchInput located handled
      exact ⟨focus, by simpa using agrees⟩
    · rw [if_neg (by simp), if_pos ⟨rfl, button.inBar⟩] at handled
      -- The tabs are distinct, so the button is found where it was pressed.
      have pressedHere : tab = i := by
        have bound : i < tabs.length := shown.count ▸ pressedTab_lt pressed_eq
        rw [join_eq_some_iff, shown.buttons.getElem? bound, some.injEq, some.injEq] at slot
        exact (getElem_inj shown.distinct).mp (isTab.trans slot.symm)
      obtain ⟨focus, agrees⟩ :=
        closeButton_agrees_iff searchInput (shown.count ▸ inside) located handled
      rw [pressedHere] at agrees
      exact ⟨focus, by simpa using agrees⟩

end

/-! ### The condition depends on the layout only -/

section

variable {manager next : BufferManager} {x y : Int} {mouseOpt : MouseOpt}

theorem getElem?_area_eq {α : Type*} {f : α → Area} {first second : List α}
    (same : second.map f = first.map f) (i : Nat) : second[i]?.map f = first[i]?.map f := by
  rw [← getElem?_map, same, getElem?_map]

theorem bind_isPosInArea_congr (same : next.layout = manager.layout) (id : Nat) :
    (next.tabButtons[id]?.bind fun button => some (isPosInArea button.area x y)) =
      manager.tabButtons[id]?.bind fun button => some (isPosInArea button.area x y) := by
  have area := getElem?_area_eq (congrArg Layout.tabAreas same) id
  have asked := congrArg (Option.map (isPosInArea · x y)) area
  rwa [Option.map_map, Option.map_map, map_eq_bind, map_eq_bind] at asked

theorem pressedTab_congr (same : next.layout = manager.layout) :
    pressedTab next x y mouseOpt = pressedTab manager x y mouseOpt := by
  have nFiles : next.fileSwitch.nFiles = manager.fileSwitch.nFiles :=
    congrArg Layout.nFiles same
  rw [pressedTab, pressedTab, nFiles,
    findTab_congr (congrArg Layout.buttons same) (bind_isPosInArea_congr same)]

variable (same : next.layout = manager.layout)
include same

theorem neighbour_congr (i : Nat) :
    neighbour next.fileSwitch i = neighbour manager.fileSwitch i := by
  have nFiles : next.fileSwitch.nFiles = manager.fileSwitch.nFiles :=
    congrArg Layout.nFiles same
  have files : next.fileSwitch.files = manager.fileSwitch.files := congrArg Layout.files same
  rw [neighbour, neighbour, nFiles, files]

theorem overSearch_congr : overSearch next.fileSwitch x y = overSearch manager.fileSwitch x y := by
  have ifSearch : next.fileSwitch.ifSearch = manager.fileSwitch.ifSearch :=
    congrArg Layout.ifSearch same
  have area : next.fileSwitch.search.area = manager.fileSwitch.search.area :=
    congrArg Layout.searchArea same
  rw [overSearch, overSearch, ifSearch, area]

theorem overEdit_congr : overEdit next x y = overEdit manager x y := by
  have current : next.fileSwitch.current = manager.fileSwitch.current :=
    congrArg Layout.current same
  have inside (file : Nat) : (next.buffers[file]?).any (fun buffer => isPosInArea buffer.area x y) =
      (manager.buffers[file]?).any fun buffer => isPosInArea buffer.area x y := by
    have area := getElem?_area_eq (congrArg Layout.bufferAreas same) file
    have onArea := congrArg (Option.any fun area => isPosInArea area x y) area
    rwa [Option.any_map, Option.any_map] at onArea
  simp only [overEdit, current, overSearch_congr same, inside]

theorem barKeeps_congr : BarKeeps next x y mouseOpt ↔ BarKeeps manager x y mouseOpt := by
  have current : next.fileSwitch.current = manager.fileSwitch.current :=
    congrArg Layout.current same
  have cursorFocus : next.cursorFocus = manager.cursorFocus := congrArg Layout.cursorFocus same
  simp only [BarKeeps, HoverKeeps, pressedTab_congr same, neighbour_congr same,
    overEdit_congr same, overSearch_congr same, current, cursorFocus]

end

end XEditor.Gui
