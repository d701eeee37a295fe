import XEditor.Gui.Focus

/-!
# The targets of the input in every run

After every message the targets agree exactly when the message meets a condition
on the state before it.  The messages that fail it are a `TAB` to another file,
a hit of the search frame, the closing of a tab, and mouse messages that move the
input without the cursor or give the bar the focus without an edit.
-/

namespace XEditor.Gui

open Option Edit Kernel Run Text BufferManager

/-! ## Mouse -/

section

variable {manager next : BufferManager} {x y : Int} {mouseOpt : MouseOpt} {outside : Outside}
  {tabs : List Nat}

theorem openFile_focus {filename : Name}
    (opened : fileSwitchBarOpenFile manager filename outside = some next) :
    next.focus = manager.focus := by
  cases openFile_opens opened with
  | shown | unchanged => rfl
  | opened stays room called =>
    obtain ⟨⟨loaded, text, code⟩, -, called⟩ := bind_eq_some_iff.mp called
    rw [some.injEq] at called
    rw [← called]
    rfl
  | entered enters called =>
    exact (updateFileList_updated called).same.focus

theorem mouseFiles_focus {files : List Nat}
    (handled : handleMouseFiles manager x y mouseOpt outside files = some next) :
    next.focus = manager.focus := by
  induction files generalizing manager with
  | nil =>
    rw [handleMouseFiles, some.injEq] at handled
    rw [handled]
  | cons id rest ih =>
    obtain ⟨control, -, handled⟩ := bind_eq_some_iff.mp handled
    split at handled
    · cases mouseOpt with
      | leftPress =>
        obtain ⟨filename, -, opened⟩ := bind_eq_some_iff.mp handled
        have focus := openFile_focus opened
        exact focus
      | rightPress =>
        obtain ⟨control, -, handled⟩ := bind_eq_some_iff.mp handled
        rw [some.injEq] at handled
        rw [← handled]
        rfl
      | leftRelease | rightRelease | move =>
        have focus := ih handled
        exact focus
    · exact ih handled

/-- The condition on a mouse message. -/
def MouseKeeps (manager : BufferManager) (x y : Int) (mouseOpt : MouseOpt) : Prop :=
  let position := mousePosTransform manager.area x y
  let inBar := mousePosTransform manager.fileSwitch.area position.1 position.2
  if dragsText manager mouseOpt = true then
    manager.focus = some .fileSwitch → BarKeeps manager inBar.1 inBar.2 mouseOpt
  else if isPosInArea manager.fileSwitch.area position.1 position.2 = true then
    BarKeeps manager inBar.1 inBar.2 mouseOpt
  else if isPosInArea manager.fileList.area position.1 position.2 = true ∨
      isPosInArea manager.toolBar.area position.1 position.2 = true then
    True
  else
    manager.focus = some .fileSwitch →
      ∀ file ∈ manager.fileSwitch.current, manager.cursorFocus = some (.file file)

theorem dispatchMouse_agrees_iff (shown : Tabs manager tabs)
    (searchInput : manager.fileSwitch.searchInput = false)
    (handled : dispatchMouse manager x y mouseOpt outside = some next) :
    next.TargetsAgree ↔
      if isPosInArea manager.fileSwitch.area x y = true then
        BarKeeps manager (mousePosTransform manager.fileSwitch.area x y).1
          (mousePosTransform manager.fileSwitch.area x y).2 mouseOpt
      else if isPosInArea manager.fileList.area x y = true ∨
          isPosInArea manager.toolBar.area x y = true then
        True
      else
        manager.focus = some .fileSwitch →
          ∀ file ∈ manager.fileSwitch.current, manager.cursorFocus = some (.file file) := by
  rw [dispatchMouse] at handled
  by_cases inBar : isPosInArea manager.fileSwitch.area x y = true
  · rw [if_pos inBar] at handled ⊢
    have noInput : { manager with focus := some .fileSwitch }.fileSwitch.searchInput = false :=
      searchInput
    have unchanged : { manager with focus := some .fileSwitch }.layout = manager.layout := rfl
    obtain ⟨focus, agrees⟩ := bar_agrees_iff noInput (shown.of_layout unchanged).toBarTabs handled
    rw [TargetsAgree, focus, forall_prop_of_true rfl, agrees]
    exact barKeeps_congr unchanged
  · rw [if_neg inBar] at handled ⊢
    by_cases inList : isPosInArea manager.fileList.area x y = true
    · rw [if_pos inList] at handled
      have focus := mouseFiles_focus handled
      rw [if_pos (.inl inList), TargetsAgree, focus]
      simp
    · rw [if_neg inList] at handled
      by_cases inTools : isPosInArea manager.toolBar.area x y = true
      · rw [if_pos inTools] at handled
        have focus := (handleMouseToolBar_updated handled).same.focus
        rw [if_pos (.inr inTools), TargetsAgree, focus]
        simp
      · rw [if_neg inTools] at handled
        cases handled
        rw [if_neg (not_or.mpr ⟨inList, inTools⟩), TargetsAgree, CurrentAgrees, searchInput]
        rfl

/-- After a mouse message the targets agree exactly under the condition. -/
theorem mouse_agrees_iff (shown : Tabs manager tabs)
    (handled : handleMouseBufferManager manager x y mouseOpt outside = some next) :
    next.TargetsAgree ↔ MouseKeeps manager x y mouseOpt := by
  simp only [handleMouseBufferManager] at handled
  have dragged : dragsText { manager with
      fileSwitch := { manager.fileSwitch with searchInput := false } } mouseOpt =
        dragsText manager mouseOpt := rfl
  rw [dragged] at handled
  by_cases drags : dragsText manager mouseOpt = true
  · rw [if_pos drags] at handled
    have unchanged : { manager with
        fileSwitch := { manager.fileSwitch with searchInput := false } }.layout =
          manager.layout := rfl
    obtain ⟨focus, agrees⟩ := bar_agrees_iff rfl (shown.of_layout unchanged).toBarTabs handled
    rw [MouseKeeps, if_pos drags, TargetsAgree, focus, agrees]
    exact imp_congr_right fun _ => barKeeps_congr unchanged
  · rw [if_neg drags] at handled
    obtain ⟨renamed, finished, cleared, clearing, handled⟩ := bind₂_eq_some_iff.mp handled
    have same :=
      (finishRename_updated finished).same.trans (clearCurrentSelection_edited clearing).same
    have unchanged : cleared.layout = manager.layout := same.layout
    have barArea : cleared.fileSwitch.area = manager.fileSwitch.area :=
      congrArg Layout.barArea unchanged
    have listArea : cleared.fileList.area = manager.fileList.area :=
      congrArg Layout.listArea unchanged
    have toolArea : cleared.toolBar.area = manager.toolBar.area :=
      congrArg Layout.toolArea unchanged
    have current : cleared.fileSwitch.current = manager.fileSwitch.current := same.current
    have cursorFocus : cleared.cursorFocus = manager.cursorFocus := same.cursorFocus
    have focus : cleared.focus = manager.focus := same.focus
    rw [dispatchMouse_agrees_iff (shown.of_layout unchanged) same.searchInput handled, MouseKeeps,
      if_neg drags, barArea, listArea, toolArea, current, cursorFocus, focus,
      barKeeps_congr unchanged]

end

/-! ## Keyboard -/

/-- Whether the search frame finds its pattern in a file. -/
def searchHits (manager : BufferManager) (file : Nat) : Option Bool := do
  let buffer ← manager.buffers[file]?
  let pattern ← manager.fileSwitch.search.edit.text.line? 0
  (searchSelect buffer.edit pattern).map (·.2)

/-- The condition on a `TAB` in the bar: the search frame has the input, or there
is no other tab. -/
def TabKeeps (manager : BufferManager) : Prop :=
  manager.fileSwitch.searchInput = true ∨ manager.fileSwitch.nFiles ≤ 1

/-- The condition on an `ENTER` in the bar: the search frame does not have the
input, or does not find its pattern. -/
def EnterKeeps (manager : BufferManager) : Prop :=
  manager.fileSwitch.searchInput = true →
    ∀ file ∈ manager.fileSwitch.current, searchHits manager file ≠ some true

/-- The condition on a key. -/
def KeyKeeps (table : PinyinTable) (manager : BufferManager) (c : Int) : Prop :=
  manager.focus = some .fileSwitch →
    (c = tab → TabKeeps manager) ∧
      (c = enter → offerPinyin table (manager.setStatus "") c = some none → EnterKeeps manager)

variable {file id : Nat}

section

variable {table : PinyinTable} {manager next : BufferManager} {c : Int} {outside : Outside}
  {tabs : List Nat}

/-- `TAB` makes another file current, unless there is no other one. -/
theorem handleTab_current_eq_iff {bar switched : FileSwitchBar}
    (shown : BarTabs bar tabs) (current : bar.current = some file)
    (called : fileSwitchBarHandleTab bar = some switched) :
    switched.current = some file ↔ bar.nFiles ≤ 1 := by
  obtain ⟨i, inside, rfl⟩ := List.getElem_of_mem (shown.current file current)
  have found : (bar.files.take bar.nFiles).findIdx? (· = bar.current) = some i := by
    rw [shown.count, shown.files.shown, current, List.findIdx?_eq_some_iff_getElem]
    refine ⟨by rwa [List.length_map], by simp, ?_⟩
    intro j before
    have distinct : tabs[j] ≠ tabs[i] := fun same =>
      absurd ((List.getElem_inj shown.distinct).mp same) (by omega)
    simpa using distinct
  have nextInside : (i + 1) % tabs.length < tabs.length := Nat.mod_lt _ (by omega)
  rw [fileSwitchBarHandleTab, found, shown.count] at called
  simp only [shown.files.getElem? nextInside, bind_eq_bind, bind_some, some.injEq] at called
  rw [← called, shown.count, some.injEq, List.getElem_inj shown.distinct]
  rcases Nat.lt_or_ge (i + 1) tabs.length with more | last
  · rw [Nat.mod_eq_of_lt more]
    omega
  · obtain rfl : i = tabs.length - 1 := by omega
    rw [show tabs.length - 1 + 1 = tabs.length by omega, Nat.mod_self]
    omega

theorem tabKey_agrees_iff {switched : FileSwitchBar}
    (shown : BarTabs manager.fileSwitch tabs) (agrees : manager.CurrentAgrees)
    (called : fileSwitchBarHandleTab manager.fileSwitch = some switched) :
    { manager with fileSwitch := switched }.CurrentAgrees ↔ TabKeeps manager := by
  have searchInput := (handleTab_sameBar called).searchInput
  cases current : manager.fileSwitch.current with
  | none =>
    have noTabs := shown.noCurrent.mp current
    have noCurrent := (shown.handleTab called).noCurrent.mpr noTabs
    refine iff_of_true ?_ (.inr ?_)
    · intro file isCurrent
      rw [show switched.current = none from noCurrent] at isCurrent
      cases isCurrent
    · rw [shown.count, noTabs]
      exact Nat.zero_le 1
  | some file =>
    have other_iff := handleTab_current_eq_iff shown current called
    obtain ⟨other, isOther⟩ : ∃ other, switched.current = some other := by
      refine ne_none_iff_exists'.mp fun none => ?_
      rw [shown.noCurrent.mpr ((shown.handleTab called).noCurrent.mp none)] at current
      cases current
    rw [isOther, some.injEq] at other_iff
    rw [TabKeeps, ← other_iff, CurrentAgrees, isOther, searchInput, agrees file current]
    cases manager.fileSwitch.searchInput with
    | true => simp [inputOf]
    | false => simp [inputOf, eq_comm]

theorem toggleSearch_agrees (manager : BufferManager) : (toggleSearch manager).CurrentAgrees := by
  intro file _
  rfl

/-- A hit leaves the input in the search frame and moves the cursor to the
file. -/
theorem searchCurrent_agrees_iff (agrees : manager.CurrentAgrees)
    (current : manager.fileSwitch.current = some file)
    (searchInput : manager.fileSwitch.searchInput = true)
    (searched : searchCurrent manager file = some next) :
    next.focus = manager.focus ∧ (next.CurrentAgrees ↔ searchHits manager file ≠ some true) := by
  obtain ⟨buffer, readBuffer, pattern, readPattern, ⟨edit, found⟩, called, searched⟩ :=
    bind₃_eq_some_iff.mp searched
  have hits : searchHits manager file = some found := by
    simp [searchHits, readBuffer, readPattern, called]
  rw [hits]
  simp only at searched
  cases found with
  | true =>
    cases searched
    simp [CurrentAgrees, setEdit, focusOn, current, searchInput, inputOf]
  | false =>
    rw [if_neg Bool.false_ne_true, some.injEq] at searched
    have kept := congrArg frame (searchSelect_area called)
    have same := Edited.same ((Change.file readBuffer kept).edited.tail (.status "No results."))
    rw [searched] at same
    exact ⟨same.focus, iff_of_true (same.currentAgrees_iff.mpr agrees) (by simp)⟩

/-- After a key to the bar the targets agree exactly under the condition. -/
theorem barKey_agrees_iff (shown : BarTabs manager.fileSwitch tabs)
    (agrees : manager.CurrentAgrees) (barKey : BarKey manager c next) :
    next.focus = manager.focus ∧
      (next.CurrentAgrees ↔ (c = tab → TabKeeps manager) ∧ (c = enter → EnterKeeps manager)) := by
  cases barKey with
  | switched isTab called =>
    subst isTab
    have notEnter : tab ≠ enter := by decide
    rw [tabKey_agrees_iff shown agrees called]
    simp [notEnter]
  | toggled isCtrlF =>
    subst isCtrlF
    have notTab : ctrlF ≠ tab := by decide
    have notEnter : ctrlF ≠ enter := by decide
    exact ⟨rfl, iff_of_true (toggleSearch_agrees manager)
      ⟨fun same => absurd same notTab, fun same => absurd same notEnter⟩⟩
  | searched isEnter current searchInput called =>
    subst isEnter
    have notTab : enter ≠ tab := by decide
    obtain ⟨focus, hits⟩ := searchCurrent_agrees_iff agrees current searchInput called
    refine ⟨focus, hits.trans ?_⟩
    simp [notTab, EnterKeeps, searchInput, current]
  | typed notTab _ noSearch edited =>
    refine ⟨edited.same.focus, iff_of_true (edited.same.currentAgrees_iff.mpr agrees)
      ⟨fun isTab => absurd isTab notTab, fun isEnter _ file isCurrent => ?_⟩⟩
    rw [noSearch isEnter] at isCurrent
    cases isCurrent
  | file notTab _ noInput updated =>
    exact ⟨updated.same.focus, iff_of_true (updated.same.currentAgrees_iff.mpr agrees)
      ⟨fun isTab => absurd isTab notTab, fun _ input => absurd input noInput⟩⟩

/-- After a key the targets agree exactly under the condition, if they agreed
before. -/
theorem key_agrees_iff (shown : Tabs manager tabs) (agrees : manager.TargetsAgree)
    (handled : handleKeyboardBufferManager table manager c outside = some next) :
    next.TargetsAgree ↔ KeyKeeps table manager c := by
  cases handleKeyboardBufferManager_keyed handled with
  | pinyin notTab _ taken edited =>
    exact iff_of_true (edited.same.targetsAgree_iff.mpr agrees) fun _ =>
      ⟨fun isTab => absurd isTab notTab,
        fun isEnter notTaken => absurd notTaken (taken isEnter)⟩
  | name inList edited =>
    exact iff_of_true (edited.same.targetsAgree_iff.mpr agrees) fun inBar =>
      nomatch inList.symm.trans inBar
  | bar inBar notTaken barKey =>
    have cleared : Same manager (manager.setStatus "") := (Change.status "").same
    obtain ⟨focus, bar⟩ := barKey_agrees_iff (shown.of_layout cleared.layout).toBarTabs
      (cleared.currentAgrees_iff.mpr (agrees inBar)) barKey
    rw [TargetsAgree, focus, cleared.focus, forall_prop_of_true inBar, bar,
      KeyKeeps, forall_prop_of_true inBar]
    exact and_congr Iff.rfl (imp_congr_right fun _ => by simp [notTaken]; rfl)
  | other _ notInBar updated =>
    exact iff_of_true (updated.same.targetsAgree_iff.mpr agrees) fun inBar =>
      absurd inBar notInBar

end

/-! ## The targets -/

section

variable {table : PinyinTable} {manager next : BufferManager} {c : Int} {outside : Outside}

theorem textOf_setEdit {buffer : FileBuffer} (read : manager.buffers[id]? = some buffer)
    (edit : TextEdit) :
    (manager.setEdit id buffer edit).textOf (.file id) = some edit.text ∧
      ∀ ref, ref ≠ .file id → (manager.setEdit id buffer edit).textOf ref = manager.textOf ref := by
  obtain ⟨bound, -⟩ := List.getElem?_eq_some_iff.mp read
  constructor
  · simp [textOf, setEdit, bound]
  intro ref other
  cases ref with
  | control id => rfl
  | search => rfl
  | file file =>
    have distinct : id ≠ file := fun same => other (same ▸ rfl)
    simp [textOf, setEdit, List.getElem?_set_ne distinct]

theorem textOf_setSearchEdit (manager : BufferManager) (edit : TextEdit) :
    (manager.setSearchEdit edit).textOf .search = some edit.text ∧
      ∀ ref, ref ≠ .search → (manager.setSearchEdit edit).textOf ref = manager.textOf ref := by
  constructor
  · rfl
  intro ref other
  cases ref with
  | control id => rfl
  | search => exact absurd rfl other
  | file id => rfl

theorem textOf_setControlEdit {control : FileNameControl}
    (read : manager.controls[id]? = some control) (edit : LineEdit) :
    (manager.setControlEdit id control edit).textOf (.control id) = some edit.text ∧
      ∀ ref, ref ≠ .control id →
        (manager.setControlEdit id control edit).textOf ref = manager.textOf ref := by
  obtain ⟨bound, -⟩ := List.getElem?_eq_some_iff.mp read
  constructor
  · simp [textOf, setControlEdit, bound]
  intro ref other
  cases ref with
  | control other_id =>
    have distinct : id ≠ other_id := fun same => other (same ▸ rfl)
    simp [textOf, setControlEdit, List.getElem?_set_ne distinct]
  | search => rfl
  | file id => rfl

/-- Changing the text of an edit changes no other text. -/
theorem textOf_modifyText {ref : EditRef} {change : Textframe → Option Textframe}
    (modified : manager.modifyText ref change = some next) :
    (∃ text changed, manager.textOf ref = some text ∧ change text = some changed ∧
        next.textOf ref = some changed) ∧
      ∀ other, other ≠ ref → next.textOf other = manager.textOf other := by
  cases ref with
  | control id =>
    obtain ⟨control, read, text, changed, modified⟩ := bind₂_eq_some_iff.mp modified
    rw [some.injEq] at modified
    obtain ⟨written, others⟩ := textOf_setControlEdit read { control.edit with text := text }
    rw [modified] at written others
    refine ⟨⟨control.edit.text, text, ?_, changed, written⟩, others⟩
    rw [textOf, read]
    rfl
  | search =>
    obtain ⟨text, changed, modified⟩ := bind_eq_some_iff.mp modified
    rw [some.injEq] at modified
    obtain ⟨written, others⟩ :=
      textOf_setSearchEdit manager { manager.fileSwitch.search.edit with text := text }
    rw [modified] at written others
    exact ⟨⟨manager.fileSwitch.search.edit.text, text, rfl, changed, written⟩, others⟩
  | file id =>
    obtain ⟨buffer, read, text, changed, modified⟩ := bind₂_eq_some_iff.mp modified
    rw [some.injEq] at modified
    obtain ⟨written, others⟩ := textOf_setEdit read { buffer.edit with text := text }
    rw [modified] at written others
    refine ⟨⟨buffer.edit.text, text, ?_, changed, written⟩, others⟩
    rw [textOf, read]
    rfl

/-- A key that commits goes to an edit: it types into its text and changes no
other one. -/
def CommitGoesTo (table : PinyinTable) (manager : BufferManager) (ref : EditRef) : Prop :=
  ∀ c next, c = enter ∨ 49 ≤ c ∧ c ≤ 48 + itemEveryPage →
    handleKeyboardPinyinInput table manager c = some (some next) →
      (∃ str text typed, manager.textOf ref = some text ∧ typeBytes text str = some typed ∧
        next.textOf ref = some typed) ∧
      ∀ other, other ≠ ref → next.textOf other = manager.textOf other

/-- A printable key, with the pinyin input off, goes to an edit: it types into
its text and changes no other one. -/
def PrintableGoesTo (table : PinyinTable) (manager : BufferManager) (ref : EditRef) : Prop :=
  ∀ c outside next, 32 ≤ c → c ≤ 126 → manager.pinyin.on = false →
    handleKeyboardBufferManager table manager c outside = some next →
      (∃ edit typed, manager.textOf ref = some edit.text ∧ printableKey edit c = some typed ∧
        next.textOf ref = some typed.text) ∧
      ∀ other, other ≠ ref → next.textOf other = manager.textOf other

theorem commitGoesTo_cursorFocus {ref : EditRef} (focused : manager.cursorFocus = some ref) :
    CommitGoesTo table manager ref := by
  intro c next commits handled
  have notEdit : ¬ (isLetter c = true ∨ c = backspace ∨ c = comma ∨ c = period ∨
      c = apostrophe) := by
    simp only [enter, itemEveryPage] at commits
    simp only [isLetter, decide_eq_true_eq, backspace, comma, period, apostrophe]
    omega
  obtain ⟨row, -, handled⟩ := bind_eq_some_iff.mp handled
  by_cases empty : row = [] ∧ isLetter c = false
  · rw [if_pos empty] at handled
    cases handled
  rw [if_neg empty, if_neg notEdit, if_pos commits, focused] at handled
  cases commit : committed table manager.pinyin row c with
  | none =>
    rw [commit] at handled
    cases handled
  | some result =>
    rw [commit] at handled
    obtain ⟨typed, modified, pinyin, -, handled⟩ := bind₂_eq_some_iff.mp handled
    cases handled
    obtain ⟨⟨text, changed, before, typing, after⟩, others⟩ := textOf_modifyText modified
    exact ⟨⟨result.1, text, changed, before, typing, after⟩, others⟩

/-- A printable key is handed on when the pinyin input is off. -/
theorem printable_dispatch (low : 32 ≤ c) (notPinyin : manager.pinyin.on = false) :
    handleKeyboardBufferManager table manager c outside =
      dispatchKey (manager.setStatus "") c outside.faults := by
  have notCtrlP : c ≠ ctrlP := by
    rw [ctrlP]
    omega
  have notOffered : offerPinyin table (manager.setStatus "") c = some none := by
    rw [offerPinyin]
    simp [setStatus, notPinyin]
  simp only [handleKeyboardBufferManager, if_neg notCtrlP, notOffered, bind_eq_bind, bind_some]

/-- A printable key that the pinyin input does not take goes to the bar. -/
theorem printable_in_bar (low : 32 ≤ c) (notPinyin : manager.pinyin.on = false)
    (focus : manager.focus = some .fileSwitch) :
    handleKeyboardBufferManager table manager c outside =
      handleKeyboardFileSwitchBar (manager.setStatus "") c outside.faults := by
  have notRenaming : ¬ ((manager.setStatus "").isRename = true ∧
      (manager.setStatus "").focus = some .fileList) := by
    simp [setStatus, focus]
  have inBar : (manager.setStatus "").focus = some .fileSwitch := focus
  rw [printable_dispatch low notPinyin, dispatchKey, if_neg notRenaming, if_pos inBar]

/-- A printable key in the bar is handed to the edit that gets the input. -/
theorem printable_in_edit {faults : Nat → Option Nat} (low : 32 ≤ c) (high : c ≤ 126)
    (current : manager.fileSwitch.current = some file) :
    handleKeyboardFileSwitchBar manager c faults =
      if manager.fileSwitch.searchInput = true then
        (printableKey manager.fileSwitch.search.edit c).map manager.setSearchEdit
      else
        manager.buffers[file]?.bind fun buffer =>
          (printableKey buffer.edit c).map (manager.setEdit file buffer) := by
  have notSpecial : c ≠ tab ∧ c ≠ ctrlF ∧ c ≠ enter ∧ c ≠ ctrlS := by
    simp only [tab, ctrlF, enter, ctrlS]
    omega
  simp only [handleKeyboardFileSwitchBar, if_neg notSpecial.1, if_neg notSpecial.2.1, current,
    handleKeyboardSearchFrame, if_neg notSpecial.2.2.1, handleKeyboardFileBuffer,
    if_neg notSpecial.2.2.2, handleKeyboardTextEdit_printable _ _ low high, bind_eq_bind]
  split
  · cases printableKey manager.fileSwitch.search.edit c <;> rfl
  · congr 1
    funext buffer
    cases printableKey buffer.edit c <;> rfl

theorem printableGoesTo_inputOf (focus : manager.focus = some .fileSwitch)
    (current : manager.fileSwitch.current = some file) :
    PrintableGoesTo table manager (inputOf manager.fileSwitch.searchInput file) := by
  intro c outside next low high notPinyin handled
  have isCurrent : (manager.setStatus "").fileSwitch.current = some file := current
  rw [printable_in_bar low notPinyin focus, printable_in_edit low high isCurrent] at handled
  cases searchInput : manager.fileSwitch.searchInput with
  | true =>
    have input : (manager.setStatus "").fileSwitch.searchInput = true := searchInput
    rw [if_pos input] at handled
    obtain ⟨typed, typing, rfl⟩ := map_eq_some_iff.mp handled
    obtain ⟨written, others⟩ := textOf_setSearchEdit (manager.setStatus "") typed
    exact ⟨⟨manager.fileSwitch.search.edit, typed, rfl, typing, written⟩, others⟩
  | false =>
    have noInput : ¬ (manager.setStatus "").fileSwitch.searchInput = true := by
      simp [setStatus, searchInput]
    rw [if_neg noInput] at handled
    obtain ⟨buffer, read, handled⟩ := bind_eq_some_iff.mp handled
    obtain ⟨typed, typing, rfl⟩ := map_eq_some_iff.mp handled
    obtain ⟨written, others⟩ := textOf_setEdit read typed
    refine ⟨⟨buffer.edit, typed, ?_, typing, written⟩, others⟩
    have stillThere : manager.buffers[file]? = some buffer := read
    simp [inputOf, textOf, stillThere]

end

/-! ## Drawing -/

section

variable {manager next : BufferManager}

theorem draw_agrees_iff (drawn : drawBufferManager manager = some next) :
    next.TargetsAgree ↔ manager.TargetsAgree := by
  obtain ⟨named, names, placed, tabs, shown, edits, drawn⟩ := bind₃_eq_some_iff.mp drawn
  cases drawn
  obtain ⟨tabButtons, rfl⟩ := placeTabs_eq tabs
  have named := (drawFileNames_edited names).same.targetsAgree_iff
  exact (drawCurrent_edited edits).same.targetsAgree_iff.trans named

end

/-! ## Runs -/

/-- The condition on a message under which the targets agree after it. -/
def KeepsTargets (table : PinyinTable) (manager : BufferManager) : Message → Prop
  | .mouse x y mouseOpt _ => MouseKeeps manager x y mouseOpt
  | .keyboard c _ => KeyKeeps table manager c
  | .draw => True

section

variable {table : PinyinTable} {manager next : BufferManager}

/-- The condition is exact for every message. -/
theorem step_agrees_iff {tabs : List Nat} {message : Message} (shown : Tabs manager tabs)
    (agrees : manager.TargetsAgree)
    (stepped : manager.step table message = some next) :
    next.TargetsAgree ↔ KeepsTargets table manager message := by
  cases message with
  | mouse x y mouseOpt outside => exact mouse_agrees_iff shown stepped
  | keyboard c outside => exact key_agrees_iff shown agrees stepped
  | draw => exact iff_of_true ((draw_agrees_iff stepped).mpr agrees) trivial

/-- At the start nothing has the focus. -/
theorem makeBufferManager_agrees {kernel : State} {search pinyin : Unset}
    (made : makeBufferManager kernel search pinyin = some manager) : manager.TargetsAgree := by
  rw [makeBufferManager, bind_eq_bind, bind_eq_some_iff] at made
  obtain ⟨input, -, made⟩ := made
  have focus := (updateFileList_updated made).same.focus
  intro inBar
  rw [focus] at inBar
  cases inBar

/-- In every state of a run whose messages all meet the condition, if the file
switch bar has the focus and a file is current, printable keys and commits go to
the edit with the cursor.  The condition cannot be weakened: after a message that
fails it the targets differ. -/
theorem input_targets_agree_throughout {kernel : State} {search pinyin : Unset}
    {start : BufferManager} (made : makeBufferManager kernel search pinyin = some start)
    (reached : Reached (BufferManager.step table) (KeepsTargets table) start manager) :
    (manager.focus = some .fileSwitch → manager.fileSwitch.current ≠ none →
      ∃ ref, manager.cursorFocus = some ref ∧ PrintableGoesTo table manager ref ∧
        CommitGoesTo table manager ref) ∧
    ∀ message next, manager.step table message = some next →
      (next.TargetsAgree ↔ KeepsTargets table manager message) := by
  have keeps : ∀ state message next,
      (state.Placed ∧ ∃ tabs, Tabs state tabs) ∧ state.TargetsAgree →
        KeepsTargets table state message → state.step table message = some next →
          (next.Placed ∧ ∃ tabs, Tabs next tabs) ∧ next.TargetsAgree := by
    rintro state message next ⟨placed, agreed⟩ meets stepped
    obtain ⟨tabs, shown⟩ := placed.2
    exact ⟨step_placed placed stepped, (step_agrees_iff shown agreed stepped).mpr meets⟩
  obtain ⟨⟨-, tabs, shown⟩, agrees⟩ :=
    reached.invariant keeps ⟨makeBufferManager_placed made, makeBufferManager_agrees made⟩
  constructor
  · intro focus isOpen
    obtain ⟨file, current⟩ := ne_none_iff_exists'.mp isOpen
    have focused := agrees focus file current
    exact ⟨_, focused, printableGoesTo_inputOf focus current, commitGoesTo_cursorFocus focused⟩
  · intro message next stepped
    exact step_agrees_iff shown agrees stepped

end

/-! ### A run with two files -/

instance (manager : BufferManager) (x y : Int) : Decidable (HoverKeeps manager x y) :=
  inferInstanceAs (Decidable (∀ _ ∈ _, _))

instance (manager : BufferManager) (x y : Int) (mouseOpt : MouseOpt) :
    Decidable (BarKeeps manager x y mouseOpt) :=
  inferInstanceAs (Decidable (_ ∧ _))

instance (manager : BufferManager) (x y : Int) (mouseOpt : MouseOpt) :
    Decidable (MouseKeeps manager x y mouseOpt) :=
  inferInstanceAs (Decidable (ite _ _ _))

/-- The file `a` has been opened. -/
def opened : BufferManager :=
  (handleMouseBufferManager listed 15 65 .leftPress nothing).get (by decide)

/-- And its text has been clicked. -/
def clicked : BufferManager :=
  (handleMouseBufferManager opened 300 100 .leftPress nothing).get (by decide)

theorem listed_made : makeBufferManager (twoFiles 100) ⟨0, 0, 0⟩ ⟨0, 0, 0⟩ = some listed :=
  (some_get _).symm

theorem opened_step : listed.step noHan (.mouse 15 65 .leftPress nothing) = some opened :=
  (some_get _).symm

theorem clicked_step : opened.step noHan (.mouse 300 100 .leftPress nothing) = some clicked :=
  (some_get _).symm

theorem input_targets_agree_clicked :
    clicked.focus = some .fileSwitch ∧ clicked.fileSwitch.current = some 0 ∧
      ∃ ref, clicked.cursorFocus = some ref ∧ PrintableGoesTo noHan clicked ref ∧
        CommitGoesTo noHan clicked ref := by
  have openKeeps : KeepsTargets noHan listed (.mouse 15 65 .leftPress nothing) := by
    change MouseKeeps listed 15 65 .leftPress
    decide
  have clickKeeps : KeepsTargets noHan opened (.mouse 300 100 .leftPress nothing) := by
    change MouseKeeps opened 300 100 .leftPress
    decide
  have reached : Reached (BufferManager.step noHan) (KeepsTargets noHan) listed clicked :=
    (Reached.start.step openKeeps opened_step).step clickKeeps clicked_step
  have inBar : clicked.focus = some .fileSwitch := by decide
  have isCurrent : clicked.fileSwitch.current = some 0 := by decide
  refine ⟨inBar, isCurrent, (input_targets_agree_throughout listed_made reached).1 inBar ?_⟩
  rw [isCurrent]
  exact some_ne_none 0

/-- Open both files, click the text, and press `TAB`. -/
def switching : List Message :=
  [.mouse 15 65 .leftPress nothing, .mouse 15 81 .leftPress nothing,
    .mouse 300 100 .leftPress nothing, .keyboard tab nothing]

/-- After `TAB` a letter goes to the file that has become current, but the pinyin
input still types into the file that was left. -/
theorem commit_goes_to_other_file :
    makeBufferManager (twoFiles 100) ⟨0, 0, 0⟩ ⟨0, 0, 0⟩ = some listed ∧
    ∃ manager typed committed,
      Reached (BufferManager.step noHan) (fun _ _ => True) listed manager ∧
      manager.focus = some .fileSwitch ∧ manager.fileSwitch.current = some 0 ∧
      manager.cursorFocus = some (.file 1) ∧
      manager.step noHan (.keyboard 122 nothing) = some typed ∧
      typed.textOf (.file 0) ≠ manager.textOf (.file 0) ∧
      typed.textOf (.file 1) = manager.textOf (.file 1) ∧
      run (BufferManager.step noHan) manager
        [.keyboard ctrlP nothing, .keyboard 122 nothing, .keyboard enter nothing] =
          some committed ∧
      committed.textOf (.file 0) = manager.textOf (.file 0) ∧
      committed.textOf (.file 1) ≠ manager.textOf (.file 1) := by
  let manager := (run (BufferManager.step noHan) listed switching).get (by decide)
  have ran : run (BufferManager.step noHan) listed switching = some manager :=
    (some_get _).symm
  exact ⟨(some_get _).symm, manager, (manager.step noHan (.keyboard 122 nothing)).get (by decide),
    (run (BufferManager.step noHan) manager [.keyboard ctrlP nothing, .keyboard 122 nothing,
      .keyboard enter nothing]).get (by decide), reached_of_run .start ran, by decide, by decide,
    by decide⟩

end XEditor.Gui
