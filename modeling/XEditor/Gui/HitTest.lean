import XEditor.Gui.Cells
import XEditor.Gui.InputTarget

/-!
# Presses on drawn characters

A left press on a character that is drawn should move the cursor to it.  The
handlers find the component of a position and hand the position in this
component on.  The cursor ends elsewhere where a handler leaves a level out, and
where a character takes two columns.
-/

namespace XEditor.Gui

open List Option Edit Kernel Run Text BufferManager

/-! ## A press -/

/-- What the handler of the mouse reads of an edit, and the text that it
changes. -/
def look (edit : TextEdit) : Area × Int × Textframe :=
  (edit.area, edit.scale, edit.text)

namespace BufferManager

/-- What the handlers read of the edits of the bar. -/
def looks (manager : BufferManager) :
    (Area × Int × Textframe) × List (Area × Int × Textframe) :=
  (look manager.fileSwitch.search.edit, manager.buffers.map fun buffer => look buffer.edit)

/-- The position of the mouse in the file switch bar. -/
def barPos (manager : BufferManager) (x y : Int) : Int × Int :=
  let position := mousePosTransform manager.area x y
  mousePosTransform manager.fileSwitch.area position.1 position.2

/-- The renaming that a press ends returns.  Without one there is nothing to
do. -/
def RenameEnds (manager : BufferManager) (x y : Int) (unset : Bool) : Prop :=
  let position := mousePosTransform manager.area x y
  (finishRename { manager with fileSwitch := { manager.fileSwitch with searchInput := false } }
    position.1 position.2 unset).isSome = true

instance (manager : BufferManager) (x y : Int) (unset : Bool) :
    Decidable (manager.RenameEnds x y unset) :=
  inferInstanceAs (Decidable (_ = true))

/-- A left press leaves a text in an edit. -/
def PressLeaves (manager : BufferManager) (x y : Int) (outside : Outside) (ref : EditRef)
    (text : Textframe) : Prop :=
  ∃ pressed, handleMouseBufferManager manager x y .leftPress outside = some pressed ∧
    pressed.textOf ref = some text

end BufferManager

section

variable {manager next : BufferManager}

theorem Relabel.looks (relabel : Relabel manager next) : next.looks = manager.looks := by
  cases relabel with
  | kernel | label | relist | endRename => rfl
  | path read filepathname => exact congrArg (Prod.mk _) (map_set_eq read rfl)

/-- A renaming changes no text of the bar. -/
theorem Relabelled.looks (relabelled : Relabelled manager next) : next.looks = manager.looks := by
  induction relabelled with
  | refl => rfl
  | tail _ relabel ih => exact relabel.looks.trans ih

theorem clearCurrentSelection_looks (cleared : clearCurrentSelection manager = some next) :
    next.looks = manager.looks := by
  rw [clearCurrentSelection] at cleared
  split at cleared
  · rw [some.injEq] at cleared
    rw [cleared]
  obtain ⟨buffer, read, cleared⟩ := bind_eq_some_iff.mp cleared
  rw [some.injEq] at cleared
  rw [← cleared]
  exact congrArg (Prod.mk _) (map_set_eq read rfl)

end

section

variable {manager next : BufferManager} {tabs : List Nat} {x y : Int} {outside : Outside}

theorem BufferManager.PressLeaves.iff {ref : EditRef} {text other : Textframe}
    (leaves : manager.PressLeaves x y outside ref text) :
    manager.PressLeaves x y outside ref other ↔ text = other := by
  obtain ⟨pressed, called, text_eq⟩ := leaves
  constructor
  · rintro ⟨pressed', called', other_eq⟩
    rw [called, some.injEq] at called'
    rw [← called', text_eq, some.injEq] at other_eq
    exact other_eq
  · rintro rfl
    exact ⟨pressed, called, text_eq⟩

theorem mousePosTransform_barArea (manager : BufferManager) (x y : Int) :
    mousePosTransform manager.barArea x y = manager.barPos x y := by
  rw [barArea, mousePosTransform_calcCurrentArea, mousePosTransform_calcCurrentArea]
  simp [barPos, mousePosTransform, screen]

/-- A press in the visible part of the bar gets to it. -/
theorem exists_press_in_bar (isBar : Tabs manager tabs)
    (inBar : isPosInArea manager.barArea x y = true)
    (ends : manager.RenameEnds x y outside.renamed) :
    ∃ cleared, cleared.layout = manager.layout ∧ cleared.looks = manager.looks ∧
      handleMouseBufferManager manager x y .leftPress outside =
        handleMouseFileSwitchBar cleared (mousePosTransform manager.area x y).1
          (mousePosTransform manager.area x y).2 .leftPress := by
  obtain ⟨renamed, finishing⟩ := isSome_iff_exists.mp ends
  have sameLayout : renamed.layout = manager.layout := (finishRename_updated finishing).same.layout
  have renamedBar := isBar.of_layout sameLayout
  obtain ⟨cleared, clearing⟩ : ∃ cleared, clearCurrentSelection renamed = some cleared := by
    rw [clearCurrentSelection]
    cases isCurrent : renamed.fileSwitch.current with
    | none => exact ⟨renamed, rfl⟩
    | some id =>
      have made := renamedBar.made id (renamedBar.current id isCurrent)
      simp [getElem?_eq_getElem made]
  have clearedLayout : cleared.layout = manager.layout :=
    (clearCurrentSelection_edited clearing).same.layout.trans sameLayout
  have renamedLooks := (finishRename_relabelled finishing).looks
  have clearedLooks : cleared.looks = manager.looks :=
    (clearCurrentSelection_looks clearing).trans renamedLooks
  have barArea_eq : cleared.fileSwitch.area = manager.fileSwitch.area :=
    congrArg Layout.barArea clearedLayout
  refine ⟨{ cleared with focus := some .fileSwitch }, clearedLayout, clearedLooks, ?_⟩
  obtain ⟨-, inside⟩ := isPosInArea_calcCurrentArea inBar
  have onScreen : mousePosTransform (calcCurrentArea screen manager.area) x y =
      mousePosTransform manager.area x y := by
    rw [mousePosTransform_calcCurrentArea]
    simp [mousePosTransform, screen]
  rw [onScreen, ← barArea_eq] at inside
  simp [handleMouseBufferManager, dragsText, finishing, clearing, dispatchMouse, inside]

/-- The loop over the tabs of a bar reads no null pointer. -/
theorem Tabs.findTab_isSome (isBar : Tabs manager tabs) (hit : TabButton → Bool) {left i : Nat}
    (inside : i + left ≤ tabs.length) :
    (findTab manager (fun button => some (hit button)) left i).isSome = true := by
  induction left generalizing i with
  | zero => rfl
  | succ left ih =>
    have bound : i < tabs.length := by omega
    have made := isBar.made _ (getElem_mem bound)
    rw [← isBar.together] at made
    simp only [findTab, isBar.buttons.getElem? bound, join_some, bind_eq_bind,
      bind_some, getElem?_eq_getElem made]
    split
    · rfl
    · exact ih (by omega)

theorem Tabs.pressedTab_isSome (isBar : Tabs manager tabs) (x y : Int) :
    (pressedTab manager x y .leftPress).isSome = true := by
  rw [pressedTab, isBar.count]
  exact isBar.findTab_isSome _ (by omega)

/-- The tabs are in the first line of the bar. -/
theorem pressedTab_below (placed : manager.Placed) (isBar : Tabs manager tabs) (below : 20 ≤ y) :
    pressedTab manager x y .leftPress = some none := by
  obtain ⟨found, found_eq⟩ := isSome_iff_exists.mp (isBar.pressedTab_isSome x y)
  cases found with
  | none => exact found_eq
  | some k =>
    obtain ⟨-, id, button, -, read, hits⟩ := findTab_hit found_eq
    rw [some.injEq, isPosInArea_iff] at hits
    obtain ⟨top, height⟩ := placed.tabs button.area
      (List.mem_map.mpr ⟨button, mem_of_getElem? read, rfl⟩)
    omega

/-- The edit of the bar that the handlers find looks the same. -/
theorem exists_same_look (layout : next.layout = manager.layout)
    (looks : next.looks = manager.looks) {id : Nat} {buffer : FileBuffer}
    (read : manager.buffers[id]? = some buffer) :
    ∃ same, next.buffers[id]? = some same ∧ same.area = buffer.area ∧
      look same.edit = look buffer.edit := by
  have areas := getElem?_area_eq (congrArg Layout.bufferAreas layout) id
  have edits := congrArg (fun all => all[id]?) (congrArg Prod.snd looks)
  simp only [BufferManager.looks, getElem?_map, read, map_some] at areas edits
  obtain ⟨same, sameRead, area_eq⟩ := map_eq_some_iff.mp areas
  rw [sameRead, map_some, some.injEq] at edits
  exact ⟨same, sameRead, area_eq, edits⟩

theorem fontSize_pos {base scale : Int} (positive : 0 < base) (zoom : 0 ≤ scale) :
    0 < fontSize base scale := by
  rw [fontSize, if_neg (by omega)]
  split
  · exact Int.mul_pos positive (Int.pow_pos (by decide))
  · exact positive

/-- The text of an edit after a press at a position in it. -/
def pressedText (edit : TextEdit) (position : Int × Int) : Textframe :=
  moveToPos edit.text (position.2.tdiv (fontHeight edit.scale))
    (position.1.tdiv (fontWidth edit.scale))

/-- A press on an edit moves its cursor. -/
theorem handleMouseTextEdit_leftPress {edit : TextEdit} (zoom : 0 ≤ edit.scale) (x y : Int) :
    ∃ pressed, handleMouseTextEdit edit x y .leftPress = some pressed ∧
      pressed.text = pressedText edit (mousePosTransform edit.area x y) := by
  have width : 0 < fontWidth edit.scale := fontSize_pos (by decide) zoom
  have height : 0 < fontHeight edit.scale := fontSize_pos (by decide) zoom
  have notMove : ¬ (MouseOpt.leftPress = .move ∧ edit.selecting = 0) := by simp
  have nonzero : ¬ (fontWidth edit.scale = 0 ∨ fontHeight edit.scale = 0) := by omega
  simp only [handleMouseTextEdit, if_neg notMove, if_neg nonzero]
  exact ⟨_, rfl, rfl⟩

theorem belowTabs_file {id : Nat} {buffer : FileBuffer}
    (isCurrent : manager.fileSwitch.current = some id)
    (notSearch : overSearch manager.fileSwitch x y = false)
    (read : manager.buffers[id]? = some buffer) (inside : isPosInArea buffer.area x y = true)
    (zoom : 0 ≤ buffer.edit.scale) :
    ∃ pressed, handleMouseBelowTabs manager x y .leftPress = some pressed ∧
      pressed.textOf (.file id) = some (pressedText buffer.edit (mousePosTransform buffer.edit.area
        (mousePosTransform buffer.area x y).1 (mousePosTransform buffer.area x y).2)) := by
  obtain ⟨edit, pressing, text_eq⟩ := handleMouseTextEdit_leftPress zoom
    (mousePosTransform buffer.area x y).1 (mousePosTransform buffer.area x y).2
  obtain ⟨bound, -⟩ := List.getElem?_eq_some_iff.mp read
  refine ⟨mouseFocus (manager.setEdit id buffer edit) (.file id) .leftPress, ?_, ?_⟩
  · rw [handleMouseBelowTabs, isCurrent]
    simp [notSearch, read, inside, handleMouseFileBuffer, pressing]
  · rw [← text_eq]
    simp [mouseFocus, focusOn, setEdit, textOf, bound]

/-- The search frame hands the position in the bar on as it is. -/
theorem belowTabs_search {id : Nat} (isCurrent : manager.fileSwitch.current = some id)
    (isSearch : overSearch manager.fileSwitch x y = true)
    (zoom : 0 ≤ manager.fileSwitch.search.edit.scale) :
    ∃ pressed, handleMouseBelowTabs manager x y .leftPress = some pressed ∧
      pressed.textOf .search = some (pressedText manager.fileSwitch.search.edit
        (mousePosTransform manager.fileSwitch.search.edit.area x y)) := by
  obtain ⟨edit, pressing, text_eq⟩ := handleMouseTextEdit_leftPress zoom x y
  rw [← text_eq, handleMouseBelowTabs, isCurrent]
  simp only [isSearch, handleMouseSearchFrame, pressing, bind_eq_bind, bind_some]
  exact ⟨_, rfl, rfl⟩

variable {edit : TextEdit} {parent : Area}

section

variable (isBar : Tabs manager tabs) (ends : manager.RenameEnds x y outside.renamed)
include isBar ends

/-- A press in the bar that no tab takes goes to the current file or the search
frame. -/
theorem exists_press_below_tabs (inBar : isPosInArea manager.barArea x y = true)
    (noTab : pressedTab manager (manager.barPos x y).1 (manager.barPos x y).2 .leftPress =
      some none) :
    ∃ cleared, cleared.layout = manager.layout ∧ cleared.looks = manager.looks ∧
      handleMouseBufferManager manager x y .leftPress outside =
        handleMouseBelowTabs cleared (manager.barPos x y).1 (manager.barPos x y).2 .leftPress := by
  obtain ⟨cleared, layout, looks, called⟩ := exists_press_in_bar isBar inBar ends
  have barArea_eq : cleared.fileSwitch.area = manager.fileSwitch.area :=
    congrArg Layout.barArea layout
  refine ⟨cleared, layout, looks, ?_⟩
  rw [called, handleMouseFileSwitchBar, barArea_eq]
  rw [← pressedTab_congr layout] at noTab
  simp only [barPos] at noTab ⊢
  simp only [noTab, bind_eq_bind, bind_some]

/-- A press on the text of the current file moves its cursor to the position in
the text. -/
theorem press_file (placed : manager.Placed) {id : Nat}
    (shown : manager.shownEdit? (.file id) = some (edit, parent)) (zoom : 0 ≤ edit.scale)
    (inside : isPosInArea (calcCurrentArea parent edit.area) x y = true) :
    manager.PressLeaves x y outside (.file id)
      (pressedText edit (mousePosTransform (calcCurrentArea parent edit.area) x y)) := by
  rw [shownEdit?] at shown
  split at shown
  · rename_i isCurrent
    obtain ⟨buffer, read, shown⟩ := map_eq_some_iff.mp shown
    obtain ⟨rfl, rfl⟩ := Prod.mk.inj shown
    obtain ⟨inParent, -⟩ := isPosInArea_calcCurrentArea inside
    obtain ⟨inBar, inBuffer⟩ := isPosInArea_calcCurrentArea inParent
    rw [mousePosTransform_barArea] at inBuffer
    -- The text begins below the tabs and below the search frame.
    have below : 20 ≤ (manager.barPos x y).2 := by
      have bufferArea := placed.buffers buffer.area
        (List.mem_map.mpr ⟨buffer, mem_of_getElem? read, rfl⟩)
      rw [bufferArea, isPosInArea_iff] at inBuffer
      exact inBuffer.2.1
    obtain ⟨cleared, layout, looks, called⟩ := exists_press_below_tabs isBar ends inBar
      (pressedTab_below placed isBar below)
    have notSearch : overSearch cleared.fileSwitch (manager.barPos x y).1
        (manager.barPos x y).2 = false := by
      have searchArea : cleared.fileSwitch.search.area = ⟨500, 0, 200, 18, 0, 0⟩ :=
        (congrArg Layout.searchArea layout).trans placed.search
      rw [overSearch, searchArea, Bool.and_eq_false_iff]
      right
      rw [← Bool.not_eq_true, isPosInArea_iff]
      rintro ⟨-, -, -, above⟩
      simp only at above
      omega
    have current_eq : cleared.fileSwitch.current = some id :=
      (congrArg Layout.current layout).trans isCurrent
    obtain ⟨same, sameRead, area_eq, look_eq⟩ := exists_same_look layout looks read
    rw [← area_eq] at inBuffer
    simp only [look, Prod.mk.injEq] at look_eq
    obtain ⟨editArea, scale, text⟩ := look_eq
    obtain ⟨pressed, pressing, text_eq⟩ := belowTabs_file current_eq notSearch sameRead inBuffer
      (scale ▸ zoom)
    rw [pressedText, area_eq, editArea, scale, text] at text_eq
    rw [mousePosTransform_calcCurrentArea, mousePosTransform_calcCurrentArea,
      mousePosTransform_barArea]
    exact ⟨pressed, called.trans pressing, text_eq⟩
  · cases shown

/-- A press on the text of the search frame moves its cursor to a position too
far to the right, by the place of the search frame in the bar. -/
theorem press_search (placed : manager.Placed)
    (shown : manager.shownEdit? .search = some (edit, parent)) (zoom : 0 ≤ edit.scale)
    (inside : isPosInArea (calcCurrentArea parent edit.area) x y = true)
    (noTab : pressedTab manager (manager.barPos x y).1 (manager.barPos x y).2 .leftPress =
      some none) :
    manager.PressLeaves x y outside .search (pressedText edit
      ((mousePosTransform (calcCurrentArea parent edit.area) x y).1 + 500,
        (mousePosTransform (calcCurrentArea parent edit.area) x y).2)) := by
  rw [shownEdit?] at shown
  split at shown
  · rename_i isShown
    obtain ⟨id, isCurrent⟩ := isSome_iff_exists.mp isShown.1
    obtain ⟨rfl, rfl⟩ := Prod.mk.inj (some.inj shown)
    obtain ⟨inParent, -⟩ := isPosInArea_calcCurrentArea inside
    obtain ⟨inBar, inSearch⟩ := isPosInArea_calcCurrentArea inParent
    rw [mousePosTransform_barArea] at inSearch
    obtain ⟨cleared, layout, looks, called⟩ := exists_press_below_tabs isBar ends inBar noTab
    have area_eq : cleared.fileSwitch.search.area = manager.fileSwitch.search.area :=
      congrArg Layout.searchArea layout
    have isSearch : overSearch cleared.fileSwitch (manager.barPos x y).1
        (manager.barPos x y).2 = true := by
      have ifSearch : cleared.fileSwitch.ifSearch = true :=
        (congrArg Layout.ifSearch layout).trans isShown.2
      rw [overSearch, ifSearch, area_eq, inSearch]
      rfl
    have current_eq : cleared.fileSwitch.current = some id :=
      (congrArg Layout.current layout).trans isCurrent
    have look_eq := congrArg Prod.fst looks
    simp only [BufferManager.looks, look, Prod.mk.injEq] at look_eq
    obtain ⟨editArea, scale, text⟩ := look_eq
    obtain ⟨pressed, pressing, text_eq⟩ := belowTabs_search current_eq isSearch (scale ▸ zoom)
    rw [pressedText, editArea, scale, text] at text_eq
    have searchArea : manager.fileSwitch.search.area = ⟨500, 0, 200, 18, 0, 0⟩ := placed.search
    rw [mousePosTransform_calcCurrentArea, mousePosTransform_calcCurrentArea,
      mousePosTransform_barArea, searchArea]
    refine ⟨pressed, called.trans pressing, ?_⟩
    rw [text_eq]
    simp only [pressedText, mousePosTransform]
    congr 3 <;> omega
  · cases shown

/-- A press on a tab leaves the text of the search frame. -/
theorem press_tab (inBar : isPosInArea manager.barArea x y = true) {i : Nat}
    (onTab : pressedTab manager (manager.barPos x y).1 (manager.barPos x y).2 .leftPress =
      some (some i)) :
    manager.PressLeaves x y outside .search manager.fileSwitch.search.edit.text := by
  obtain ⟨cleared, layout, looks, called⟩ := exists_press_in_bar isBar inBar ends
  have barArea_eq : cleared.fileSwitch.area = manager.fileSwitch.area :=
    congrArg Layout.barArea layout
  have text_eq : cleared.fileSwitch.search.edit.text = manager.fileSwitch.search.edit.text :=
    congrArg (fun looks => looks.1.2.2) looks
  have clearedBar := isBar.of_layout layout
  rw [← pressedTab_congr layout] at onTab
  have found := onTab
  obtain ⟨-, id, button, slot, read, -⟩ := findTab_hit found
  have returns := @Tabs.call_isSome _ _ clearedBar (.switchTo id) (by simp)
  obtain ⟨pressed, switched⟩ := isSome_iff_exists.mp returns
  refine ⟨pressed, ?_, ?_⟩
  · rw [called, handleMouseFileSwitchBar, barArea_eq]
    simp only [barPos] at onTab
    simp only [onTab, slot, read, bind_eq_bind, bind_some]
    rw [handleMouseTabButton, if_pos ⟨rfl, button.switches⟩]
    exact switched
  · rw [tabCall, buttonExecSwitchToFile] at switched
    split at switched
    · rw [some.injEq] at switched
      rw [← switched, ← text_eq]
      rfl
    · obtain ⟨file, -, switched⟩ := bind_eq_some_iff.mp switched
      rw [some.injEq] at switched
      rw [← switched, ← text_eq]
      rfl

end

end

/-! ## Presses on drawn characters -/

/-- Where a press on a drawn character finds it.  In the current file this is
the first column of the character.  In the search frame it is found by chance
only, when a tab takes the press and the cursor already is at the character. -/
def FindsCell (manager : BufferManager) (edit : TextEdit) (cell : Cell) (x y : Int) :
    EditRef → Prop
  | .file _ => x < cell.area.x + fontWidth edit.scale
  | .search =>
    (∃ i, pressedTab manager (manager.barPos x y).1 (manager.barPos x y).2 .leftPress =
      some (some i)) ∧ moveToPos edit.text cell.row cell.col = edit.text
  | .control _ => False

/-- Only the smallest font fits in the search frame. -/
theorem fontWidth_of_fontHeight_le {scale : Int} (zoom : 0 ≤ scale)
    (fits : fontHeight scale ≤ 16) : fontWidth scale = 8 := by
  rw [fontHeight, fontSize, if_neg (by omega)] at fits
  split at fits
  · rename_i larger
    obtain ⟨n, scale_eq⟩ := Int.eq_succ_of_zero_lt larger
    have power : (0 : Int) < 2 ^ n := Int.pow_pos (by decide)
    rw [scale_eq, show ((n : Int) + 1).toNat = n + 1 by omega] at fits
    omega
  · rw [fontWidth, fontSize, if_neg (by omega), if_neg (by assumption)]

/-- The text of the search frame and its area. -/
theorem shownEdit?_search {manager : BufferManager} (placed : manager.Placed) {edit : TextEdit}
    {parent : Area} (shown : manager.shownEdit? .search = some (edit, parent)) :
    edit = manager.fileSwitch.search.edit ∧ edit.area.height = 16 ∧
      parent = calcCurrentArea manager.barArea manager.fileSwitch.search.area := by
  rw [shownEdit?] at shown
  split at shown
  · obtain ⟨rfl, rfl⟩ := Prod.mk.inj (some.inj shown)
    exact ⟨rfl, congrArg (fun own => own.2.2.2) placed.searchEdit, rfl⟩
  · cases shown

section

variable {manager : BufferManager} {tabs : List Nat} {edit : TextEdit} {parent : Area}
  {cell : Cell} {line : Row} {x y : Int} {outside : Outside} (placed : manager.Placed)
  (zoom : 0 ≤ edit.scale)
  (drawn : DrawnIn (calcCurrentArea parent edit.area) (fontWidth edit.scale)
    (fontHeight edit.scale) line cell)
  (hit : isPosInArea cell.area x y = true)
include placed zoom drawn hit

/-- A character that is drawn in the search frame has the smallest font. -/
theorem fontWidth_of_drawn_in_search
    (shown : manager.shownEdit? .search = some (edit, parent)) : fontWidth edit.scale = 8 := by
  apply fontWidth_of_fontHeight_le zoom
  calc fontHeight edit.scale = cell.area.height := drawn.height_eq.symm
    _ ≤ (calcCurrentArea parent edit.area).height := by
      rw [drawn.area_eq] at hit ⊢
      exact height_le_of_visible hit
    _ ≤ edit.area.height := calcCurrentArea_height_le parent edit.area
    _ = 16 := (shownEdit?_search placed shown).2.1

variable (isBar : Tabs manager tabs) (read : edit.text.data[cell.row]? = some line)
  (ends : manager.RenameEnds x y outside.renamed)
include isBar read ends

theorem press_file_iff {id : Nat}
    (shown : manager.shownEdit? (.file id) = some (edit, parent)) :
    manager.PressLeaves x y outside (.file id) (moveToPos edit.text cell.row cell.col) ↔
      x < cell.area.x + fontWidth edit.scale := by
  have width : 0 < fontWidth edit.scale := fontSize_pos (by decide) zoom
  have height : 0 < fontHeight edit.scale := fontSize_pos (by decide) zoom
  have inside := (drawn.position hit).1
  rw [(press_file isBar ends placed shown zoom inside).iff, pressedText, drawn.row_eq height hit]
  rcases drawn.col_eq width hit with ⟨first, col_eq⟩ | ⟨second, -, col_eq⟩
  · rw [col_eq]
    exact iff_of_true rfl first
  · exact iff_of_false (drawn.moveToPos_ne read (by omega)) second

theorem press_search_iff (shown : manager.shownEdit? .search = some (edit, parent)) :
    manager.PressLeaves x y outside .search (moveToPos edit.text cell.row cell.col) ↔
      (∃ i, pressedTab manager (manager.barPos x y).1 (manager.barPos x y).2 .leftPress =
        some (some i)) ∧ moveToPos edit.text cell.row cell.col = edit.text := by
  have height : 0 < fontHeight edit.scale := fontSize_pos (by decide) zoom
  have narrow := fontWidth_of_drawn_in_search placed zoom drawn hit shown
  obtain ⟨inside, left, -⟩ := drawn.position hit
  obtain ⟨found, found_eq⟩ := isSome_iff_exists.mp
    (isBar.pressedTab_isSome (manager.barPos x y).1 (manager.barPos x y).2)
  cases found with
  | none =>
    rw [(press_search isBar ends placed shown zoom inside found_eq).iff, pressedText,
      drawn.row_eq height hit]
    refine iff_of_false (drawn.moveToPos_ne read ?_) ?_
    · rw [narrow] at left ⊢
      rw [Int.tdiv_eq_ediv_of_nonneg (by omega)]
      omega
    · rintro ⟨⟨i, onTab⟩, -⟩
      rw [found_eq] at onTab
      cases onTab
  | some i =>
    obtain ⟨edit_eq, -, parent_eq⟩ := shownEdit?_search placed shown
    obtain ⟨inParent, -⟩ := isPosInArea_calcCurrentArea inside
    rw [parent_eq] at inParent
    obtain ⟨inBar, -⟩ := isPosInArea_calcCurrentArea inParent
    rw [(press_tab isBar ends inBar found_eq).iff, ← edit_eq]
    constructor
    · intro there
      exact ⟨⟨i, found_eq⟩, there.symm⟩
    · rintro ⟨-, there⟩
      exact there.symm

end

/-- After the window has been drawn, a left press on a character of the current
file or of the search frame moves the cursor to this character exactly where
`FindsCell` says. -/
theorem press_finds_cell_iff {before manager : BufferManager} {tabs : List Nat} {ref : EditRef}
    {edit : TextEdit} {parent : Area} {cell : Cell} {x y : Int} {outside : Outside}
    (placed : before.Placed) (isBar : Tabs before tabs)
    (drawing : drawBufferManager before = some manager) (drawn : cell ∈ before.drawnCells ref)
    (shown : manager.shownEdit? ref = some (edit, parent)) (zoom : 0 ≤ edit.scale)
    (hit : isPosInArea cell.area x y = true) (ends : manager.RenameEnds x y outside.renamed) :
    manager.PressLeaves x y outside ref (moveToPos edit.text cell.row cell.col) ↔
      FindsCell manager edit cell x y ref := by
  have stepped : before.step noHan .draw = some manager := drawing
  obtain ⟨placed, tabs, isBar⟩ := step_placed ⟨placed, tabs, isBar⟩ stepped
  obtain ⟨left, around, shownLeft, inText⟩ := mem_drawnCells drawing drawn
  obtain ⟨rfl, rfl⟩ := Prod.mk.inj (some.inj (shown.symm.trans shownLeft))
  obtain ⟨line, read, isDrawn⟩ := mem_textCells inText
  cases ref with
  | control id => cases shown
  | file id => exact press_file_iff placed zoom isDrawn hit isBar read ends shown
  | search => exact press_search_iff placed zoom isDrawn hit isBar read ends shown

/-- The window on the file `a` after it has been drawn. -/
def openedShown : BufferManager :=
  (drawBufferManager opened).get (by decide)

/-- The first letter of the file. -/
def letter : Cell := ⟨0, 0, ⟨115, 43, 8, 16, 0, 0⟩⟩

theorem press_finds_letter :
    letter ∈ opened.drawnCells (.file 0) ∧
      ∃ edit parent, openedShown.shownEdit? (.file 0) = some (edit, parent) ∧
        openedShown.PressLeaves 118 50 nothing (.file 0)
          (moveToPos edit.text letter.row letter.col) := by
  have reached : Reached (BufferManager.step noHan) (fun _ _ => True) listed opened :=
    Reached.start.step trivial opened_step
  obtain ⟨placed, tabs, isBar⟩ := placed_throughout listed_made reached
  have drawing : drawBufferManager opened = some openedShown := (some_get _).symm
  have drawn : letter ∈ opened.drawnCells (.file 0) := by decide
  have scale : (openedShown.shownEdit? (.file 0)).map (fun shown => shown.1.scale) = some 0 := by
    decide
  obtain ⟨⟨edit, parent⟩, shown, scale_eq⟩ := map_eq_some_iff.mp scale
  have inFirst : FindsCell openedShown edit letter 118 50 (.file 0) := by
    change (118 : Int) < 115 + fontWidth edit.scale
    rw [scale_eq]
    decide
  exact ⟨drawn, edit, parent, shown, (press_finds_cell_iff placed isBar drawing drawn shown
    (Int.le_of_eq scale_eq.symm) (by decide) (by decide)).mpr inFirst⟩

/-- The files `a` and `b` are listed, the first one is opened and clicked, and a
letter is typed in the search frame. -/
def searchTyping : List Message :=
  [.mouse 15 65 .leftPress nothing, .mouse 300 100 .leftPress nothing,
    .keyboard ctrlF nothing, .keyboard 122 nothing]

/-- The window with the letter in the search frame. -/
def searchTyped : BufferManager :=
  (run (BufferManager.step noHan) listed searchTyping).get (by decide)

/-- The same window after it has been drawn. -/
def searchShown : BufferManager :=
  (drawBufferManager searchTyped).get (by decide)

/-- The letter in the search frame. -/
def searchLetter : Cell := ⟨0, 0, ⟨615, 23, 8, 16, 0, 0⟩⟩

/-- A press on the letter in the search frame puts the cursor behind it. -/
theorem press_misses_search_letter :
    makeBufferManager (twoFiles 100) ⟨0, 0, 0⟩ ⟨0, 0, 0⟩ = some listed ∧
    run (BufferManager.step noHan) listed searchTyping = some searchTyped ∧
    drawBufferManager searchTyped = some searchShown ∧
    searchLetter ∈ searchTyped.drawnCells .search ∧
    isPosInArea searchLetter.area 615 23 = true ∧
    searchShown.RenameEnds 615 23 nothing.renamed ∧
    ¬ searchShown.PressLeaves 615 23 nothing .search
      (moveToPos searchShown.fileSwitch.search.edit.text searchLetter.row searchLetter.col) := by
  refine ⟨(some_get _).symm, (some_get _).symm, (some_get _).symm,
    by decide, by decide, by decide, ?_⟩
  rintro ⟨pressed, called, text_eq⟩
  have behind : (handleMouseBufferManager searchShown 615 23 .leftPress nothing).map
      (fun pressed => pressed.fileSwitch.search.edit.text.cursorCol) = some 1 := by
    decide
  rw [called, map_some, some.injEq] at behind
  have col_eq := congrArg Textframe.cursorCol (some.inj text_eq)
  rw [behind] at col_eq
  cases col_eq

end XEditor.Gui
