import XEditor.Gui.Layout

/-!
# The tabs over whole runs

The bar keeps its open files in two arrays, a count and a current file.  Seen
from outside it is a list of tabs without repetition, one of which is current.
Buttons and files are numbered in the order they are made, and each is made by a
call that makes one of the other kind as well, so those made together have the
same number.

Closing a tab of a full bar reads one entry behind the end of each array.  The
entry it is stored in is no tab any more; here the memory behind the arrays may
hold anything.
-/

namespace XEditor.Gui

open List Option Edit Kernel Run Text BufferManager

/-! ## Closing a tab of a full bar -/

/-- The loop of `handle_close_Button` that moves the entries of an array down by
one, with what the memory behind the array holds. -/
def shiftLoopPast (beyond : Option Nat) :
    (left j : Nat) → (slots : List (Option Nat)) → List (Option Nat)
  | 0, _, slots => slots
  | left + 1, j, slots =>
    shiftLoopPast beyond left (j + 1) (slots.set j (slots[j + 1]?.getD beyond))

/-- What the memory behind the two arrays of the bar holds. -/
structure Beyond where
  file : Option Nat
  button : Option Nat

/-- `closeTab` without the check of the arrays' ends. -/
def closeTabPast (beyond : Beyond) (fileSwitch : FileSwitchBar) (i : Nat) :
    Option FileSwitchBar :=
  if i = fileSwitch.nFiles - 1 then closeTab fileSwitch i
  else do
    let files := shiftLoopPast beyond.file (fileSwitch.nFiles - i) i fileSwitch.files
    let buttons := shiftLoopPast beyond.button (fileSwitch.nFiles - i) i fileSwitch.buttons
    let file ← files[i]?
    some { fileSwitch with
      files := files
      buttons := buttons
      current := file
      nFiles := fileSwitch.nFiles - 1 }

/-- `handleCloseButton` without the check of the arrays' ends. -/
def handleCloseButtonPast (beyond : Beyond) (manager : BufferManager) (id : Nat) :
    Option BufferManager :=
  match tabOf manager.fileSwitch id with
  | none => some manager
  | some i => do
    let button ← manager.tabButtons[id]?
    let file ← manager.fileSwitch.files[i]?.join
    let buffer ← manager.buffers[file]?
    let fileSwitch ← closeTabPast beyond manager.fileSwitch i
    some { manager.setEdit file buffer { buffer.edit with text := lineEditSetStr [] } with
      fileSwitch := fileSwitch
      tabButtons := manager.tabButtons.set id { button with
        edit := { button.edit with text := lineEditSetStr [] } } }

theorem shiftLoopPast_eq (beyond : Option Nat) {left j : Nat} {slots shifted : List (Option Nat)}
    (inside : shiftLoop left j slots = some shifted) :
    shiftLoopPast beyond left j slots = shifted := by
  induction left generalizing j slots with
  | zero =>
    rw [shiftLoop, some.injEq] at inside
    exact inside
  | succ left ih =>
    obtain ⟨next, found, rest⟩ := bind_eq_some_iff.mp inside
    rw [shiftLoopPast, found]
    exact ih rest

variable {i id : Nat}

/-- Where the arrays' ends are not reached, nothing depends on the memory behind
them. -/
theorem closeTabPast_eq (beyond : Beyond) {fileSwitch next : FileSwitchBar}
    (closed : closeTab fileSwitch i = some next) :
    closeTabPast beyond fileSwitch i = some next := by
  rw [closeTabPast]
  by_cases last : i = fileSwitch.nFiles - 1
  · rw [if_pos last]
    exact closed
  rw [closeTab, if_neg last] at closed
  obtain ⟨files, filesShifted, buttons, buttonsShifted, closed⟩ := bind₂_eq_some_iff.mp closed
  rw [if_neg last, shiftLoopPast_eq beyond.file filesShifted,
    shiftLoopPast_eq beyond.button buttonsShifted]
  exact closed

theorem handleCloseButtonPast_eq (beyond : Beyond) {manager next : BufferManager}
    {button : TabButton} (isButton : manager.tabButtons[id]? = some button)
    (closed : handleCloseButton manager id button = some next) :
    handleCloseButtonPast beyond manager id = some next := by
  unfold handleCloseButton at closed
  unfold handleCloseButtonPast
  cases isTab : tabOf manager.fileSwitch id with
  | none =>
    rw [isTab] at closed
    exact closed
  | some i =>
    simp only [isTab] at closed
    obtain ⟨file, isFile, buffer, isBuffer, fileSwitch, isClosed, closed⟩ :=
      bind₃_eq_some_iff.mp closed
    simp only [isButton, isFile, isBuffer, closeTabPast_eq beyond isClosed, bind_eq_bind, bind_some]
    exact closed

/-! ## Operations on the bar -/

/-- A call of one of the operations on the tabs. -/
inductive TabCall where
  | openFile (filename : Name) (outside : Outside)
  | switchTo (button : Nat)
  | tab
  | close (button : Nat) (beyond : Beyond)

/-- The buffer manager after a call. -/
def tabCall (manager : BufferManager) : TabCall → Option BufferManager
  | .openFile filename outside => fileSwitchBarOpenFile manager filename outside
  | .switchTo button => buttonExecSwitchToFile manager button
  | .tab => (fileSwitchBarHandleTab manager.fileSwitch).map fun fileSwitch =>
    { manager with fileSwitch := fileSwitch }
  | .close button beyond => handleCloseButtonPast beyond manager button

/-- The first entries of an array of the bar are a list of tabs. -/
structure Slots (slots : List (Option Nat)) (tabs : List Nat) : Prop where
  length : slots.length = fileswitchMaxFiles
  shown : slots.take tabs.length = tabs.map some

/-- The bar shows a list of tabs, each given by the common number of its button
and its file. -/
structure BarTabs (bar : FileSwitchBar) (tabs : List Nat) : Prop where
  count : bar.nFiles = tabs.length
  room : tabs.length ≤ fileswitchMaxFiles
  buttons : Slots bar.buttons tabs
  files : Slots bar.files tabs
  distinct : tabs.Nodup
  current : ∀ file, bar.current = some file → file ∈ tabs
  noCurrent : bar.current = none ↔ tabs = []

/-- Besides, the tabs have been made, and as many buttons as files. -/
structure Tabs (manager : BufferManager) (tabs : List Nat) : Prop extends
    BarTabs manager.fileSwitch tabs where
  made : ∀ id ∈ tabs, id < manager.buffers.length
  together : manager.tabButtons.length = manager.buffers.length

/-! ## Entries of the arrays -/

/-- What stands at each index after the entries have been moved down. -/
theorem getElem?_shiftLoopPast (beyond : Option Nat) (left j k : Nat)
    (slots : List (Option Nat)) :
    (shiftLoopPast beyond left j slots)[k]? =
      if j ≤ k ∧ k < j + left ∧ k < slots.length then some (slots[k + 1]?.getD beyond)
      else slots[k]? := by
  induction left generalizing j slots with
  | zero =>
    rw [shiftLoopPast, if_neg (by omega)]
  | succ left ih =>
    rw [shiftLoopPast, ih, length_set]
    by_cases here : k = j
    · subst here
      rw [if_neg (by omega)]
      by_cases inside : k < slots.length
      · rw [if_pos ⟨by omega, by omega, inside⟩, getElem?_set_self inside]
      · simp [inside]
    · by_cases moved : j + 1 ≤ k ∧ k < j + 1 + left ∧ k < slots.length
      · rw [if_pos moved, if_pos ⟨by omega, by omega, moved.2.2⟩, getElem?_set_ne (by omega)]
      · rw [if_neg moved, if_neg (by omega), getElem?_set_ne (by omega)]

theorem shiftLoopPast_length (beyond : Option Nat) (left j : Nat) (slots : List (Option Nat)) :
    (shiftLoopPast beyond left j slots).length = slots.length := by
  induction left generalizing j slots with
  | zero => rfl
  | succ left ih => rw [shiftLoopPast, ih, length_set]

section

variable {slots : List (Option Nat)} {tabs : List Nat} (isSlots : Slots slots tabs)

include isSlots

theorem Slots.getElem? (inside : i < tabs.length) : slots[i]? = some (some tabs[i]) := by
  rw [← getElem?_take_of_lt inside, isSlots.shown, getElem?_map, getElem?_eq_getElem inside]
  rfl

/-- Storing a tab behind the last one. -/
theorem Slots.concat (id : Nat) (room : tabs.length < fileswitchMaxFiles) :
    Slots (slots.set tabs.length (some id)) (tabs ++ [id]) where
  length := by rw [length_set, isSlots.length]
  shown := by
    rw [length_append, length_singleton, take_add_one,
      take_set_of_le (Nat.le_refl _), isSlots.shown,
      getElem?_set_self (by rw [isSlots.length]; exact room), map_append]
    rfl

/-- Forgetting the last tab. -/
theorem Slots.dropLast (last : i + 1 = tabs.length) :
    Slots slots (tabs.eraseIdx i) where
  length := isSlots.length
  shown := by
    have erased : tabs.eraseIdx i = tabs.take i := by
      rw [eraseIdx_eq_take_drop_succ, last, drop_length, append_nil]
    rw [erased, length_take, Nat.min_eq_left (by omega), map_take, ← isSlots.shown,
      take_take, Nat.min_eq_left (by omega)]

/-- Moving the entries down takes the tab at the index out of the list. -/
theorem Slots.shift (room : tabs.length ≤ fileswitchMaxFiles) (beyond : Option Nat)
    (inside : i < tabs.length) :
    Slots (shiftLoopPast beyond (tabs.length - i) i slots) (tabs.eraseIdx i) where
  length := by rw [shiftLoopPast_length, isSlots.length]
  shown := by
    have length := isSlots.length
    rw [length_eraseIdx_of_lt inside]
    apply ext_getElem?
    intro k
    rw [List.getElem?_take, getElem?_map, List.getElem?_eraseIdx, getElem?_shiftLoopPast]
    by_cases kept : k < tabs.length - 1
    · rw [if_pos kept]
      by_cases before : k < i
      · rw [if_neg (by omega), if_pos before, isSlots.getElem? (by omega),
          getElem?_eq_getElem (by omega)]
        rfl
      · rw [if_pos ⟨by omega, by omega, by omega⟩, if_neg before, isSlots.getElem? (by omega),
          getElem?_eq_getElem (by omega)]
        rfl
    · rw [if_neg kept, if_neg (by omega), getElem?_eq_none (by omega)]
      rfl

end

/-! ## One call -/

section

variable {bar next : FileSwitchBar} {tabs : List Nat} (shown : BarTabs bar tabs)

include shown

/-- Making a tab current keeps the list of tabs. -/
theorem BarTabs.withCurrent {file : Nat} (isTab : file ∈ tabs) :
    BarTabs { bar with current := some file } tabs where
  count := shown.count
  room := shown.room
  buttons := shown.buttons
  files := shown.files
  distinct := shown.distinct
  current := by
    rintro _ ⟨⟩
    exact isTab
  noCurrent := by
    simp only [reduceCtorEq, false_iff]
    exact ne_nil_of_mem isTab

/-- A button of the bar is found at the index of its tab. -/
theorem BarTabs.tabOf_eq (isTab : tabOf bar id = some i) :
    ∃ inside : i < tabs.length, tabs[i] = id := by
  rw [tabOf, shown.count, shown.buttons.shown] at isTab
  obtain ⟨inside, same, -⟩ := List.findIdx?_eq_some_iff_getElem.mp isTab
  rw [length_map] at inside
  exact ⟨inside, by simpa using same⟩

theorem BarTabs.handleTab (called : fileSwitchBarHandleTab bar = some next) :
    BarTabs next tabs := by
  unfold fileSwitchBarHandleTab at called
  split at called
  · cases called
    exact shown
  rename_i i isCurrent
  obtain ⟨bound, -⟩ := List.findIdx?_eq_some_iff_getElem.mp isCurrent
  rw [length_take, shown.count] at bound
  have inside : (i + 1) % tabs.length < tabs.length := Nat.mod_lt _ (by omega)
  obtain ⟨file, isFile, called⟩ := bind_eq_some_iff.mp called
  rw [shown.count, shown.files.getElem? inside] at isFile
  cases isFile
  cases called
  exact shown.withCurrent (getElem_mem inside)

/-- A new tab comes last and is current. -/
theorem BarTabs.concat (room : tabs.length < fileswitchMaxFiles) (fresh : id ∉ tabs) :
    BarTabs { bar with
      buttons := bar.buttons.set bar.nFiles (some id)
      files := bar.files.set bar.nFiles (some id)
      current := some id
      nFiles := bar.nFiles + 1 } (tabs ++ [id]) where
  count := by rw [length_append, shown.count]; rfl
  room := by
    rw [length_append]
    exact room
  buttons := by
    rw [shown.count]
    exact shown.buttons.concat id room
  files := by
    rw [shown.count]
    exact shown.files.concat id room
  distinct := by
    rw [nodup_append]
    refine ⟨shown.distinct, by simp, ?_⟩
    rintro old isTab new isNew rfl
    exact fresh (mem_singleton.mp isNew ▸ isTab)
  current := by
    simp
  noCurrent := by simp

/-- A bar from whose arrays a tab has been taken out, with another one current or
none left. -/
theorem BarTabs.erased (inside : i < tabs.length) {buttons files : List (Option Nat)}
    (isButtons : Slots buttons (tabs.eraseIdx i)) (isFiles : Slots files (tabs.eraseIdx i))
    {current : Option Nat} (isCurrent : ∀ file, current = some file → file ∈ tabs.eraseIdx i)
    (noCurrent : current = none → tabs.eraseIdx i = []) :
    BarTabs { bar with buttons, files, current, nFiles := tabs.length - 1 } (tabs.eraseIdx i) where
  count := by rw [length_eraseIdx_of_lt inside]
  room := by
    have room := shown.room
    rw [length_eraseIdx_of_lt inside]
    omega
  buttons := isButtons
  files := isFiles
  distinct := shown.distinct.sublist (eraseIdx_sublist tabs i)
  current := isCurrent
  noCurrent := by
    refine ⟨noCurrent, fun empty => ?_⟩
    cases current with
    | none => rfl
    | some file =>
      have isTab := isCurrent file rfl
      rw [empty] at isTab
      cases isTab

/-- The tab at an index is closed: the one behind it is current, or the one
before it if it was the last. -/
theorem BarTabs.close {beyond : Beyond} (inside : i < tabs.length)
    (called : closeTabPast beyond bar i = some next) :
    BarTabs next (tabs.eraseIdx i) := by
  rw [closeTabPast, shown.count] at called
  by_cases last : i = tabs.length - 1
  · rw [if_pos last, closeTab, shown.count, if_pos last] at called
    have buttons := shown.buttons.dropLast (i := i) (by omega)
    have files := shown.files.dropLast (i := i) (by omega)
    by_cases first : i = 0
    · rw [if_pos first] at called
      cases called
      refine shown.erased inside buttons files (by simp) fun _ => ?_
      rw [← length_eq_zero_iff, length_eraseIdx_of_lt inside]
      omega
    · rw [if_neg first] at called
      obtain ⟨file, isFile, called⟩ := bind_eq_some_iff.mp called
      rw [shown.files.getElem? (by omega)] at isFile
      cases isFile
      cases called
      refine shown.erased inside buttons files ?_ (by simp)
      rintro _ ⟨⟩
      exact mem_eraseIdx_iff_getElem.mpr ⟨i - 1, by omega, by omega, rfl⟩
  · rw [if_neg last] at called
    obtain ⟨file, isFile, called⟩ := bind_eq_some_iff.mp called
    have files := shown.files.shift shown.room beyond.file inside
    have buttons := shown.buttons.shift shown.room beyond.button inside
    rw [files.getElem? (by rw [length_eraseIdx_of_lt inside]; omega)] at isFile
    cases isFile
    cases called
    refine shown.erased inside buttons files ?_ (by simp)
    rintro _ ⟨⟩
    exact getElem_mem _

end

variable {outside : Outside}

section

variable {manager next : BufferManager} {tabs : List Nat} (shown : Tabs manager tabs)

include shown

/-- Nothing but the bar and the numbers of buttons and files matters. -/
theorem Tabs.congr (bar : BarTabs next.fileSwitch tabs)
    (buffers : next.buffers.length = manager.buffers.length)
    (tabButtons : next.tabButtons.length = manager.tabButtons.length) : Tabs next tabs where
  toBarTabs := bar
  made := by
    rw [buffers]
    exact shown.made
  together := by rw [tabButtons, buffers, shown.together]

theorem Tabs.switchTo (called : buttonExecSwitchToFile manager id = some next) :
    Tabs next tabs := by
  unfold buttonExecSwitchToFile at called
  cases isTab : tabOf manager.fileSwitch id with
  | none =>
    rw [isTab] at called
    cases called
    exact shown
  | some i =>
    simp only [isTab] at called
    obtain ⟨inside, -⟩ := shown.tabOf_eq isTab
    rw [shown.files.getElem? inside] at called
    cases called
    exact shown.congr (shown.withCurrent (getElem_mem inside)) rfl rfl

theorem Tabs.close {beyond : Beyond}
    (called : handleCloseButtonPast beyond manager id = some next) :
    ∃ left, Tabs next left ∧ left ⊆ tabs := by
  unfold handleCloseButtonPast at called
  cases isTab : tabOf manager.fileSwitch id with
  | none =>
    rw [isTab, some.injEq] at called
    exact ⟨tabs, called ▸ shown, List.Subset.refl tabs⟩
  | some i =>
    simp only [isTab] at called
    obtain ⟨inside, -⟩ := shown.tabOf_eq isTab
    obtain ⟨button, -, file, -, called⟩ := bind₂_eq_some_iff.mp called
    obtain ⟨buffer, -, bar, closed, called⟩ := bind₂_eq_some_iff.mp called
    cases called
    refine ⟨tabs.eraseIdx i, ⟨shown.close inside closed, ?_, ?_⟩, eraseIdx_subset⟩
    · intro id isLeft
      rw [setEdit, length_set]
      exact shown.made id (mem_of_mem_eraseIdx isLeft)
    · rw [setEdit, length_set, length_set]
      exact shown.together

variable {filename : Name}

theorem Tabs.openTab (room : tabs.length < fileswitchMaxFiles)
    (called : openTab manager filename outside = some next) :
    Tabs next (tabs ++ [manager.buffers.length]) := by
  obtain ⟨⟨kernel, text, _⟩, -, called⟩ := bind_eq_some_iff.mp called
  cases called
  have fresh : manager.buffers.length ∉ tabs :=
    fun isTab => Nat.lt_irrefl _ (shown.made _ isTab)
  refine ⟨?_, ?_, ?_⟩
  · simp only [addTab, focusOn, shown.together]
    exact shown.concat room fresh
  · intro id isTab
    simp only [addTab, focusOn, length_append, length_singleton]
    rcases mem_append.mp isTab with old | new
    · exact Nat.lt_succ_of_lt (shown.made id old)
    · rw [mem_singleton.mp new]
      exact Nat.lt_succ_self _
  · simp [addTab, focusOn, shown.together]

/-- Tabs depend on the layout only. -/
theorem Tabs.of_layout (same : next.layout = manager.layout) : Tabs next tabs := by
  have lengths {α β : Type} {f : α → β} {first second : List α}
      (areas : second.map f = first.map f) : second.length = first.length := by
    rw [← length_map f, areas, length_map]
  have bar : BarTabs next.fileSwitch tabs := by
    have nFiles : next.fileSwitch.nFiles = manager.fileSwitch.nFiles :=
      congrArg Layout.nFiles same
    have buttons : next.fileSwitch.buttons = manager.fileSwitch.buttons :=
      congrArg Layout.buttons same
    have files : next.fileSwitch.files = manager.fileSwitch.files :=
      congrArg Layout.files same
    have current : next.fileSwitch.current = manager.fileSwitch.current :=
      congrArg Layout.current same
    exact ⟨nFiles ▸ shown.count, shown.room, buttons ▸ shown.buttons, files ▸ shown.files,
      shown.distinct, current ▸ shown.current, current ▸ shown.noCurrent⟩
  exact shown.congr bar (lengths (congrArg Layout.bufferAreas same))
    (lengths (congrArg Layout.tabAreas same))

/-- Entering a directory leaves the tabs alone. -/
theorem Tabs.enterDirectory (called : enterDirectory manager filename = some next) :
    Tabs next tabs := by
  have moved : Tabs { manager with fileList := { manager.fileList with
      path := enteredPath manager.fileList.path filename } } tabs :=
    shown.congr shown.toBarTabs rfl rfl
  exact moved.of_layout (updateFileList_updated called).same.layout

theorem Tabs.openFile (called : fileSwitchBarOpenFile manager filename outside = some next) :
    ∃ tabs, Tabs next tabs := by
  have kept (kernel : State) : Tabs { manager with kernel := kernel } tabs :=
    shown.congr shown.toBarTabs rfl rfl
  cases openFile_opens called with
  | shown stays bound slot =>
    rw [shown.count] at bound
    rw [shown.files.getElem? bound] at slot
    cases slot
    exact ⟨tabs, shown.congr (shown.withCurrent (getElem_mem bound)) rfl rfl⟩
  | opened stays room called =>
    rw [shown.count] at room
    exact ⟨_, (kept _).openTab room called⟩
  | entered enters called => exact ⟨tabs, (kept _).enterDirectory called⟩
  | unchanged kernel stays => exact ⟨tabs, kept kernel⟩

/-- Every call leaves a list of tabs. -/
theorem Tabs.call {call : TabCall} (called : tabCall manager call = some next) :
    ∃ tabs, Tabs next tabs := by
  cases call with
  | openFile filename outside => exact shown.openFile called
  | switchTo button => exact ⟨tabs, shown.switchTo called⟩
  | tab =>
    obtain ⟨bar, handled, rfl⟩ := map_eq_some_iff.mp called
    exact ⟨tabs, shown.congr (shown.handleTab handled) rfl rfl⟩
  | close button beyond =>
    obtain ⟨left, stillShown, -⟩ := shown.close called
    exact ⟨left, stillShown⟩

end

/-! ## Calls that always return -/

theorem BarTabs.close_isSome {bar : FileSwitchBar} {tabs : List Nat} (shown : BarTabs bar tabs)
    (beyond : Beyond) (inside : i < tabs.length) :
    (closeTabPast beyond bar i).isSome := by
  rw [closeTabPast, shown.count]
  by_cases last : i = tabs.length - 1
  · rw [if_pos last, closeTab, shown.count, if_pos last]
    by_cases first : i = 0
    · rw [if_pos first]
      rfl
    · rw [if_neg first, shown.files.getElem? (by omega)]
      rfl
  · have files := shown.files.shift shown.room beyond.file inside
    rw [if_neg last]
    simp only [files.getElem? (i := i) (by rw [length_eraseIdx_of_lt inside]; omega)]
    rfl

/-- Switching between tabs and closing them never reads a null pointer. -/
theorem Tabs.call_isSome {manager : BufferManager} {tabs : List Nat} (shown : Tabs manager tabs)
    {call : TabCall} (notOpen : ∀ filename outside, call ≠ .openFile filename outside) :
    (tabCall manager call).isSome := by
  cases call with
  | openFile filename outside => exact absurd rfl (notOpen filename outside)
  | switchTo button =>
    rw [tabCall, buttonExecSwitchToFile]
    cases isTab : tabOf manager.fileSwitch button with
    | none => rfl
    | some i =>
      obtain ⟨inside, -⟩ := shown.tabOf_eq isTab
      simp only [shown.files.getElem? inside]
      rfl
  | tab =>
    rw [tabCall, fileSwitchBarHandleTab]
    split
    · rfl
    rename_i i isCurrent
    obtain ⟨bound, -⟩ := List.findIdx?_eq_some_iff_getElem.mp isCurrent
    rw [length_take, shown.count] at bound
    rw [shown.count, shown.files.getElem? (Nat.mod_lt _ (by omega))]
    rfl
  | close button beyond =>
    rw [tabCall, handleCloseButtonPast]
    cases isTab : tabOf manager.fileSwitch button with
    | none => rfl
    | some i =>
      obtain ⟨inside, rfl⟩ := shown.tabOf_eq isTab
      have made := shown.made _ (getElem_mem inside)
      obtain ⟨bar, closed⟩ := isSome_iff_exists.mp (shown.close_isSome beyond inside)
      have button := getElem?_eq_getElem (shown.together ▸ made)
      simp only [shown.files.getElem? inside, join_some, closed, button,
        bind_eq_bind, bind_some, getElem?_eq_getElem made]
      rfl

/-! ## Whole runs -/

/-- The arrays, the count and the current file of the bar fit together.  The
button and the file of a slot have the same number, so one call has made
both. -/
structure TabsConsistent (manager : BufferManager) : Prop where
  bound : manager.fileSwitch.nFiles ≤ fileswitchMaxFiles
  slots : ∀ i < manager.fileSwitch.nFiles, ∃ id,
    manager.fileSwitch.buttons[i]? = some (some id) ∧
      manager.fileSwitch.files[i]? = some (some id) ∧
        id < manager.tabButtons.length ∧ id < manager.buffers.length
  together : manager.tabButtons.length = manager.buffers.length
  distinctButtons : ∀ i j, i < manager.fileSwitch.nFiles → j < manager.fileSwitch.nFiles →
    manager.fileSwitch.buttons[i]? = manager.fileSwitch.buttons[j]? → i = j
  distinctFiles : ∀ i j, i < manager.fileSwitch.nFiles → j < manager.fileSwitch.nFiles →
    manager.fileSwitch.files[i]? = manager.fileSwitch.files[j]? → i = j
  noCurrent : manager.fileSwitch.current = none ↔ manager.fileSwitch.nFiles = 0
  current : ∀ file, manager.fileSwitch.current = some file →
    ∃ i < manager.fileSwitch.nFiles, manager.fileSwitch.files[i]? = some (some file)

theorem Slots.inj {slots : List (Option Nat)} {tabs : List Nat} (isSlots : Slots slots tabs)
    (distinct : tabs.Nodup) {i j : Nat} (iInside : i < tabs.length) (jInside : j < tabs.length)
    (same : slots[i]? = slots[j]?) : i = j := by
  rw [isSlots.getElem? iInside, isSlots.getElem? jInside, some.injEq, some.injEq] at same
  exact (getElem_inj distinct).mp same

/-- A bar that shows a list of tabs is consistent. -/
theorem Tabs.consistent {manager : BufferManager} {tabs : List Nat} (shown : Tabs manager tabs) :
    TabsConsistent manager where
  bound := by
    rw [shown.count]
    exact shown.room
  slots := by
    rw [shown.count]
    intro i inside
    have made := shown.made _ (getElem_mem inside)
    refine ⟨tabs[i], shown.buttons.getElem? inside, shown.files.getElem? inside, ?_, made⟩
    rw [shown.together]
    exact made
  together := shown.together
  distinctButtons := by
    rw [shown.count]
    exact fun i j iInside jInside => shown.buttons.inj shown.distinct iInside jInside
  distinctFiles := by
    rw [shown.count]
    exact fun i j iInside jInside => shown.files.inj shown.distinct iInside jInside
  noCurrent := by rw [shown.noCurrent, shown.count, length_eq_zero_iff]
  current := by
    intro file isCurrent
    obtain ⟨i, inside, same⟩ := getElem_of_mem (shown.current file isCurrent)
    refine ⟨i, by rw [shown.count]; exact inside, ?_⟩
    rw [shown.files.getElem? inside, same]

/-- The bar as it is made, before anything has been opened. -/
def NothingOpened (manager : BufferManager) : Prop :=
  (∃ unset, manager.fileSwitch = makeFileSwitchBar unset) ∧
    manager.tabButtons = [] ∧ manager.buffers = []

theorem NothingOpened.tabs {manager : BufferManager} (nothing : NothingOpened manager) :
    Tabs manager [] := by
  obtain ⟨⟨unset, bar⟩, noButtons, noFiles⟩ := nothing
  refine ⟨?_, by simp, by rw [noButtons, noFiles]; rfl⟩
  rw [bar]
  exact ⟨rfl, by decide, ⟨rfl, rfl⟩, ⟨rfl, rfl⟩, nodup_nil, by rintro _ ⟨⟩,
    by simp [makeFileSwitchBar]⟩

/-- After every sequence of calls that open, switch to, and close tabs, the bar
is consistent, and every further call but one that opens a file returns. -/
theorem tabs_consistent_throughout {start manager : BufferManager}
    (nothing : NothingOpened start)
    (reached : Reached tabCall (fun _ _ => True) start manager) :
    TabsConsistent manager ∧
      ∀ call, (∀ filename outside, call ≠ .openFile filename outside) →
        (tabCall manager call).isSome := by
  have keeps : ∀ state call next, (∃ tabs, Tabs state tabs) → True →
      tabCall state call = some next → ∃ tabs, Tabs next tabs := by
    rintro state call next ⟨tabs, shown⟩ - called
    exact shown.call called
  obtain ⟨tabs, shown⟩ := reached.invariant keeps ⟨[], nothing.tabs⟩
  exact ⟨shown.consistent, fun call notOpen => shown.call_isSome notOpen⟩

/-- No memory is set, and no call fails. -/
def nothing : Outside := ⟨⟨0, 0, 0⟩, false, false, false, fun _ => none⟩

/-- A pinyin input without candidates. -/
def noHan : PinyinTable := ⟨fun _ _ => none, fun _ => 0⟩

/-- The window on a directory with the files `a` and `b`. -/
def listed : BufferManager :=
  (makeBufferManager (twoFiles 100) ⟨0, 0, 0⟩ ⟨0, 0, 0⟩).get (by decide)

/-- Open both files, close the first, and open it again. -/
def reopening : List TabCall :=
  [.openFile [97] nothing, .openFile [98] nothing, .close 0 ⟨none, none⟩, .openFile [97] nothing,
    .tab]

theorem tabs_consistent_reopened :
    NothingOpened listed ∧ ∃ manager, run tabCall listed reopening = some manager ∧
      manager.fileSwitch.files.take 2 = [some 1, some 2] ∧ TabsConsistent manager := by
  have start : NothingOpened listed := ⟨⟨⟨0, 0, 0⟩, by decide⟩, by decide, by decide⟩
  let manager := (run tabCall listed reopening).get (by decide)
  have ran : run tabCall listed reopening = some manager := (some_get _).symm
  exact ⟨start, manager, ran, by decide,
    (tabs_consistent_throughout start (reached_of_run .start ran)).1⟩

end XEditor.Gui
