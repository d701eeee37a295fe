import Mathlib.Data.List.InsertIdx
import XEditor.Gui.Tabs

/-!
# Closing one tab

`handle_close_Button` moves the tabs behind the closed one down by one and makes
a neighbour of it current, whichever tab was current before.  The loop that
moves the tabs reads one entry behind the last one, which a full bar does not
have.
-/

namespace XEditor.Gui

open List Option Edit Kernel Text

/-- The bar shows a list of tabs, each a button with the file that belongs to
it. -/
structure BarPairs (bar : FileSwitchBar) (tabs : List (Nat × Nat)) : Prop where
  count : bar.nFiles = tabs.length
  room : tabs.length ≤ fileswitchMaxFiles
  buttons : Slots bar.buttons (tabs.map Prod.fst)
  files : Slots bar.files (tabs.map Prod.snd)
  distinctButtons : (tabs.map Prod.fst).Nodup
  distinctFiles : (tabs.map Prod.snd).Nodup

/-- The file that is current after the tab at an index has been closed: that of
the tab behind it, or of the one before it if it was the last. -/
def successor (tabs : List (Nat × Nat)) (i : Nat) : Option Nat :=
  if i + 1 = tabs.length then
    if i = 0 then none else tabs[i - 1]?.map Prod.snd
  else tabs[i + 1]?.map Prod.snd

/-- The arrays of a bar in which buttons and files that belong together have the
same number, as in every bar that calls have led to. -/
theorem barPairs_of_slots {bar : FileSwitchBar} {tabs : List Nat}
    (count : bar.nFiles = tabs.length) (room : tabs.length ≤ fileswitchMaxFiles)
    (buttons : Slots bar.buttons tabs) (files : Slots bar.files tabs) (distinct : tabs.Nodup) :
    BarPairs bar (tabs.map fun id => (id, id)) := by
  have numbers (f : Nat × Nat → Nat) (same : ∀ id, f (id, id) = id) :
      (tabs.map fun id => (id, id)).map f = tabs := by
    rw [List.map_map]
    exact map_id'' same tabs
  have fst := numbers Prod.fst fun _ => rfl
  have snd := numbers Prod.snd fun _ => rfl
  exact ⟨by rwa [length_map], by rwa [length_map], fst.symm ▸ buttons, snd.symm ▸ files,
    fst.symm ▸ distinct, snd.symm ▸ distinct⟩

/-! ## The loop -/

/-- The loop stays inside the array exactly when the entry behind the last one it
moves is there. -/
theorem shiftLoop_eq (left j : Nat) (slots : List (Option Nat)) :
    shiftLoop left j slots =
      if left = 0 ∨ j + left < slots.length then some (shiftLoopPast none left j slots)
      else none := by
  induction left generalizing j slots with
  | zero => rfl
  | succ left ih =>
    rw [shiftLoop]
    by_cases inside : j + 1 < slots.length
    · rw [getElem?_eq_getElem inside, bind_eq_bind, bind_some, ih,
        length_set, shiftLoopPast, getElem?_eq_getElem inside, getD_some]
      by_cases enough : left = 0 ∨ j + 1 + left < slots.length
      · rw [if_pos enough, if_pos (by omega)]
      · rw [if_neg enough, if_neg (by omega)]
    · rw [getElem?_eq_none (by omega), if_neg (by omega)]
      rfl

section

variable {bar : FileSwitchBar} {tabs : List (Nat × Nat)} {i : Nat} (shown : BarPairs bar tabs)

include shown

theorem BarPairs.file_eq (inside : i < tabs.length) : bar.files[i]? = some (some tabs[i].2) := by
  have file := shown.files.getElem? (i := i) (by rw [length_map]; exact inside)
  rwa [getElem_map] at file

/-- A bar from whose arrays a tab has been taken out. -/
theorem BarPairs.erased (inside : i < tabs.length) {buttons files : List (Option Nat)}
    (isButtons : Slots buttons ((tabs.map Prod.fst).eraseIdx i))
    (isFiles : Slots files ((tabs.map Prod.snd).eraseIdx i)) (current : Option Nat) :
    BarPairs { bar with buttons, files, current, nFiles := tabs.length - 1 } (tabs.eraseIdx i) where
  count := by rw [length_eraseIdx_of_lt inside]
  room := by
    have room := shown.room
    rw [length_eraseIdx_of_lt inside]
    omega
  buttons := by
    rw [← eraseIdx_map]
    exact isButtons
  files := by
    rw [← eraseIdx_map]
    exact isFiles
  distinctButtons := by
    rw [← eraseIdx_map]
    exact shown.distinctButtons.sublist (eraseIdx_sublist _ i)
  distinctFiles := by
    rw [← eraseIdx_map]
    exact shown.distinctFiles.sublist (eraseIdx_sublist _ i)

/-- A tab of a bar that is not full, or the last one, is closed. -/
theorem BarPairs.closeTab_fits (inside : i < tabs.length)
    (fits : tabs.length < fileswitchMaxFiles ∨ i + 1 = tabs.length) :
    ∃ next, closeTab bar i = some next ∧ BarPairs next (tabs.eraseIdx i) ∧
      next.current = successor tabs i := by
  have buttonsInside : i < (tabs.map Prod.fst).length := by rwa [length_map]
  have filesInside : i < (tabs.map Prod.snd).length := by rwa [length_map]
  by_cases last : i + 1 = tabs.length
  · have buttons := shown.buttons.dropLast (i := i) (by rw [length_map]; exact last)
    have files := shown.files.dropLast (i := i) (by rw [length_map]; exact last)
    rw [closeTab, shown.count, if_pos (by omega), successor, if_pos last]
    by_cases first : i = 0
    · rw [if_pos first, if_pos first]
      exact ⟨_, rfl, shown.erased inside buttons files none, rfl⟩
    · have before : i - 1 < tabs.length := by omega
      rw [if_neg first, if_neg first, shown.file_eq before, getElem?_eq_getElem before]
      exact ⟨_, rfl, shown.erased inside buttons files _, rfl⟩
  · have behind : i + 1 < tabs.length := by omega
    have moves (slots : List (Option Nat)) (length : slots.length = fileswitchMaxFiles) :
        shiftLoop (tabs.length - i) i slots =
          some (shiftLoopPast none (tabs.length - i) i slots) := by
      rw [shiftLoop_eq, if_pos (by omega)]
    have buttons := shown.buttons.shift (by rw [length_map]; exact shown.room) none
      buttonsInside
    have files := shown.files.shift (by rw [length_map]; exact shown.room) none filesInside
    rw [length_map] at buttons files
    have current : (shiftLoopPast none (tabs.length - i) i bar.files)[i]? =
        some (some tabs[i + 1].2) := by
      have filesLength := shown.files.length
      rw [getElem?_shiftLoopPast, if_pos ⟨by omega, by omega, by omega⟩, shown.file_eq behind]
      rfl
    rw [closeTab, shown.count, if_neg (by omega), moves bar.files shown.files.length,
      moves bar.buttons shown.buttons.length, successor, if_neg last,
      getElem?_eq_getElem behind]
    simp only [bind_eq_bind, bind_some, current]
    exact ⟨_, rfl, shown.erased inside buttons files _, rfl⟩

/-- Otherwise the loop leaves the arrays. -/
theorem BarPairs.closeTab_full (inside : i + 1 < tabs.length)
    (full : tabs.length = fileswitchMaxFiles) : closeTab bar i = none := by
  have past : shiftLoop (tabs.length - i) i bar.files = none := by
    rw [shiftLoop_eq, if_neg]
    rw [shown.files.length]
    omega
  rw [closeTab, shown.count, if_neg (by omega), past]
  rfl

/-- A button of the bar is found at the index of its tab. -/
theorem BarPairs.tabOf_eq (inside : i < tabs.length) : tabOf bar tabs[i].1 = some i := by
  have buttons := shown.buttons.shown
  rw [length_map] at buttons
  rw [tabOf, shown.count, buttons, List.map_map, findIdx?_eq_some_iff_getElem]
  refine ⟨by rwa [length_map], by simp, ?_⟩
  intro j before
  have other : tabs[j].1 ≠ tabs[i].1 := by
    intro same
    have jInside : j < (tabs.map Prod.fst).length := by rw [length_map]; omega
    have iInside : i < (tabs.map Prod.fst).length := by rwa [length_map]
    have names : (tabs.map Prod.fst)[j] = (tabs.map Prod.fst)[i] := by
      rw [getElem_map, getElem_map]
      exact same
    have indices := (getElem_inj shown.distinctButtons).mp names
    omega
  simpa using other

end

/-! ## The call -/

/-- A file shown by a tab beside the one at an index, or none if that is the only
one. -/
def IsNeighbour (tabs : List (Nat × Nat)) (i : Nat) (current : Option Nat) : Prop :=
  (tabs.length = 1 ∧ current = none) ∨
    ∃ j tab, (j + 1 = i ∨ j = i + 1) ∧ tabs[j]? = some tab ∧ current = some tab.2

/-- The bar has lost one of its tabs, and nothing else has happened to it or to
the others. -/
structure ClosedJust (manager next : BufferManager) (tabs : List (Nat × Nat)) (i : Nat)
    (button file : Nat) : Prop where
  shown : BarPairs next.fileSwitch (tabs.eraseIdx i)
  kept : manager.fileSwitch.current ≠ some file →
    next.fileSwitch.current = manager.fileSwitch.current
  moved : manager.fileSwitch.current = some file →
    IsNeighbour tabs i next.fileSwitch.current
  buttons : ∀ other ≠ button, next.tabButtons[other]? = manager.tabButtons[other]?
  buffers : ∀ other ≠ file, next.buffers[other]? = manager.buffers[other]?

theorem successor_isNeighbour {tabs : List (Nat × Nat)} {i : Nat} (inside : i < tabs.length) :
    IsNeighbour tabs i (successor tabs i) := by
  rw [successor]
  by_cases last : i + 1 = tabs.length
  · rw [if_pos last]
    by_cases first : i = 0
    · rw [if_pos first]
      exact Or.inl ⟨by omega, rfl⟩
    · have before : i - 1 < tabs.length := by omega
      rw [if_neg first, getElem?_eq_getElem before]
      exact Or.inr ⟨i - 1, _, Or.inl (by omega), getElem?_eq_getElem before, rfl⟩
  · have behind : i + 1 < tabs.length := by omega
    rw [if_neg last, getElem?_eq_getElem behind]
    exact Or.inr ⟨i + 1, _, Or.inr rfl, getElem?_eq_getElem behind, rfl⟩

section

variable {manager : BufferManager} {tabs : List (Nat × Nat)} {i : Nat} {button : TabButton}

/-- The call does to the bar what `closeTab` does, and empties the text and the
label of the tab. -/
theorem BarPairs.handleCloseButton_eq (shown : BarPairs manager.fileSwitch tabs)
    (inside : i < tabs.length) (isBuffer : tabs[i].2 < manager.buffers.length) :
    handleCloseButton manager tabs[i].1 button =
      (closeTab manager.fileSwitch i).map fun bar =>
        { manager.setEdit tabs[i].2 manager.buffers[tabs[i].2]
            { manager.buffers[tabs[i].2].edit with text := lineEditSetStr [] } with
          fileSwitch := bar
          tabButtons := manager.tabButtons.set tabs[i].1 { button with
            edit := { button.edit with text := lineEditSetStr [] } } } := by
  rw [handleCloseButton, shown.tabOf_eq inside]
  simp only [shown.file_eq inside, join_some, bind_eq_bind, bind_some, getElem?_eq_getElem isBuffer]
  cases closeTab manager.fileSwitch i <;> rfl

/-- Closing a tab takes out that tab and nothing more exactly when the bar is not
full or the tab is its last one, and the tab that is made current was current
already unless the closed one was. -/
theorem close_removes_just_iff (shown : BarPairs manager.fileSwitch tabs)
    (inside : i < tabs.length) (isBuffer : tabs[i].2 < manager.buffers.length) :
    (∃ next, handleCloseButton manager tabs[i].1 button = some next ∧
      ClosedJust manager next tabs i tabs[i].1 tabs[i].2) ↔
    (tabs.length < fileswitchMaxFiles ∨ i + 1 = tabs.length) ∧
      (manager.fileSwitch.current = some tabs[i].2 ∨
        manager.fileSwitch.current = successor tabs i) := by
  rw [shown.handleCloseButton_eq inside isBuffer]
  by_cases fits : tabs.length < fileswitchMaxFiles ∨ i + 1 = tabs.length
  · obtain ⟨bar, closed, isErased, current⟩ := shown.closeTab_fits inside fits
    rw [closed, map_some]
    constructor
    · rintro ⟨next, ⟨⟩, just⟩
      refine ⟨fits, ?_⟩
      by_cases isCurrent : manager.fileSwitch.current = some tabs[i].2
      · exact Or.inl isCurrent
      · exact Or.inr ((just.kept isCurrent).symm.trans current)
    · rintro ⟨-, condition⟩
      refine ⟨_, rfl, isErased, ?_, ?_, ?_, ?_⟩
      · intro notCurrent
        exact current.trans (condition.resolve_left notCurrent).symm
      · intro _
        rw [current]
        exact successor_isNeighbour inside
      · exact fun other isOther => getElem?_set_ne isOther.symm
      · exact fun other isOther => getElem?_set_ne isOther.symm
  · have room := shown.room
    rw [shown.closeTab_full (by omega) (by omega)]
    refine ⟨?_, fun condition => absurd condition.1 fits⟩
    rintro ⟨next, closed, -⟩
    cases closed

end

/-- The tabs of a window in which files have been opened one after another. -/
def inOrder (count : Nat) : List (Nat × Nat) :=
  (List.range count).map fun id => (id, id)

/-- Such a window. -/
def withTabs (count : Nat) (current : Option Nat) : BufferManager :=
  let slots := (List.range count).map some ++ List.replicate (fileswitchMaxFiles - count) none
  { listed with
    fileSwitch := { listed.fileSwitch with
      buttons := slots, files := slots, nFiles := count, current := current }
    tabButtons := List.replicate count (tabButtonFor (ascii "a"))
    buffers := List.replicate count (makeFileBuffer ⟨0, 0, 0⟩) }

theorem withTabs_shown {count : Nat} (room : count ≤ fileswitchMaxFiles) (current : Option Nat) :
    BarPairs (withTabs count current).fileSwitch (inOrder count) := by
  have slots : Slots (withTabs count current).fileSwitch.files (List.range count) := by
    constructor
    · simp only [withTabs, length_append, length_map, length_range,
        length_replicate]
      omega
    · exact take_left' (by rw [length_map])
  exact barPairs_of_slots length_range.symm (by rwa [length_range]) slots slots nodup_range

/-- The first of two tabs is closed while it is current. -/
theorem close_removes_just_first :
    ∃ next, handleCloseButton (withTabs 2 (some 0)) 0 (tabButtonFor (ascii "a")) = some next ∧
      ClosedJust (withTabs 2 (some 0)) next (inOrder 2) 0 0 0 :=
  (close_removes_just_iff (withTabs_shown (by decide) (some 0)) (i := 0) (by decide)
    (by decide)).mpr ⟨by decide, by decide⟩

/-- Closing the first of three tabs makes the second current although the third
was, and closing the first tab of a full bar reads behind its arrays. -/
theorem close_moves_current :
    (BarPairs (withTabs 3 (some 2)).fileSwitch (inOrder 3) ∧
      ¬ ∃ next, handleCloseButton (withTabs 3 (some 2)) 0 (tabButtonFor (ascii "a")) =
          some next ∧
        ClosedJust (withTabs 3 (some 2)) next (inOrder 3) 0 0 0) ∧
    BarPairs (withTabs 10 (some 0)).fileSwitch (inOrder 10) ∧
      handleCloseButton (withTabs 10 (some 0)) 0 (tabButtonFor (ascii "a")) = none := by
  refine ⟨⟨withTabs_shown (by decide) _, ?_⟩, withTabs_shown (by decide) _, by decide⟩
  rintro ⟨next, closed, just⟩
  have current : (handleCloseButton (withTabs 3 (some 2)) 0 (tabButtonFor (ascii "a"))).map
      (·.fileSwitch.current) = some (some 1) := by
    decide
  rw [closed, map_some, just.kept (by decide)] at current
  exact absurd current (by decide)

end XEditor.Gui
