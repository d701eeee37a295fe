import XEditor.Gui.Placement

/-!
# The characters on the screen

`draw_TextEdit` draws a text character by character.  Where a character is on
the screen follows from the areas of the components around it, through
`calc_current_area` at each level.  A mouse position goes down the same
components through `mouse_pos_transform`.  At one level the two fit together for
all areas and offsets.

Of what is drawn only the places of the characters are modelled, not their
colours and pixels.
-/

namespace XEditor.Gui

open List Option Edit Kernel Run Text BufferManager

/-! ## One level -/

section

variable {parent area : Area} {x y : Int}

/-- The position in a component is the position, in its own area, of the
position in the parent. -/
theorem mousePosTransform_calcCurrentArea (parent area : Area) (x y : Int) :
    mousePosTransform (calcCurrentArea parent area) x y =
      mousePosTransform area (mousePosTransform parent x y).1 (mousePosTransform parent x y).2 := by
  simp only [mousePosTransform, calcCurrentArea, Prod.mk.injEq]
  constructor <;> omega

theorem isPosInArea_iff : isPosInArea area x y = true ↔
    area.x ≤ x ∧ area.y ≤ y ∧ x < area.x + area.width ∧ y < area.y + area.height :=
  decide_eq_true_iff

/-- What is visible of a component is inside its parent, and the parent finds
the component there. -/
theorem isPosInArea_calcCurrentArea
    (visible : isPosInArea (calcCurrentArea parent area) x y = true) :
    isPosInArea parent x y = true ∧
      isPosInArea area (mousePosTransform parent x y).1 (mousePosTransform parent x y).2 =
        true := by
  rw [isPosInArea_iff] at visible
  rw [isPosInArea_iff, isPosInArea_iff]
  simp only [calcCurrentArea] at visible
  simp only [mousePosTransform]
  split_ifs at visible <;> omega

theorem calcCurrentArea_height_le (parent area : Area) :
    (calcCurrentArea parent area).height ≤ area.height := by
  simp only [calcCurrentArea]
  split <;> omega

theorem height_le_of_visible (visible : isPosInArea (calcCurrentArea parent area) x y = true) :
    (calcCurrentArea parent area).height ≤ parent.height := by
  rw [isPosInArea_iff] at visible
  simp only [calcCurrentArea] at visible ⊢
  split_ifs at visible ⊢ <;> omega

end

/-! ## The characters of a text -/

/-- A character on the screen, with its row and its first column in the text. -/
structure Cell where
  row : Nat
  col : Nat
  area : Area
  deriving DecidableEq, Repr

/-- `draw_TextEdit` draws only the characters that are visible as a whole. -/
def drawChar (area : Area) (row col : Nat) (fontWidth width height : Int) : List Cell :=
  let charArea := calcCurrentArea area ⟨col * fontWidth, row * height, width, height, 0, 0⟩
  if charArea.x ≥ 0 ∧ charArea.y ≥ 0 ∧ charArea.width = width ∧ charArea.height = height then
    [⟨row, col, charArea⟩]
  else []

/-- The loop of `draw_TextEdit` over the bytes of a row, from a column on. -/
def drawRow (area : Area) (row : Nat) (width height : Int) : (col : Nat) → Row → List Cell
  | _, [] => []
  | col, [_] => drawChar area row col width width height
  | col, first :: second :: rest =>
    if isHan first && isHan second then
      drawChar area row col width (width * 2) height ++
        drawRow area row width height (col + 2) rest
    else
      drawChar area row col width width height ++
        drawRow area row width height (col + 1) (second :: rest)

/-- The loop of `draw_TextEdit` over the rows, from a row on. -/
def drawRows (area : Area) (width height : Int) : (row : Nat) → List Row → List Cell
  | _, [] => []
  | row, line :: rest =>
    drawRow area row width height 0 line ++ drawRows area width height (row + 1) rest

/-- The characters that `draw_TextEdit` draws, once it has scrolled the edit. -/
def textCells (edit : TextEdit) (parent : Area) : List Cell :=
  drawRows (calcCurrentArea parent edit.area) (fontWidth edit.scale) (fontHeight edit.scale) 0
    edit.text.data

/-- The width of the character at a column. -/
def charWidth (line : Row) (col : Nat) (width : Int) : Int :=
  if insideHan line (col + 1) then width * 2 else width

/-- A character of a row, drawn in the area of the edit. -/
structure DrawnIn (area : Area) (width height : Int) (line : Row) (cell : Cell) : Prop where
  col_lt : cell.col < line.length
  boundary : insideHan line cell.col = false
  area_eq : cell.area = calcCurrentArea area
    ⟨cell.col * width, cell.row * height, charWidth line cell.col width, height, 0, 0⟩
  height_eq : cell.area.height = height

section

variable {area : Area} {width height : Int} {cell : Cell}

variable {row col : Nat} {edit : TextEdit}

theorem mem_drawChar {line : Row} (col_lt : col < line.length)
    (boundary : insideHan line col = false) {wide : Int} (wide_eq : wide = charWidth line col width)
    (drawn : cell ∈ drawChar area row col width wide height) :
    cell.row = row ∧ DrawnIn area width height line cell := by
  simp only [drawChar] at drawn
  split at drawn
  · rename_i whole
    rw [mem_singleton] at drawn
    subst drawn
    exact ⟨rfl, col_lt, boundary, by rw [wide_eq], whole.2.2.2⟩
  · cases drawn

/-- The loop over a row starts each character at its first byte. -/
theorem mem_drawRow {line done rest : Row} (line_eq : line = done ++ rest)
    (col_eq : col = done.length) (boundary : insideHan line col = false)
    (drawn : cell ∈ drawRow area row width height col rest) :
    cell.row = row ∧ DrawnIn area width height line cell := by
  fun_induction drawRow area row width height col rest generalizing done with
  | case1 => cases drawn
  | case2 col byte =>
    have notInside : insideHan line (col + 1) = false := by
      rw [insideHan_succ boundary, line_eq, col_eq]
      simp [isHanAt]
    exact mem_drawChar (by simp [line_eq, col_eq]) boundary
      (by rw [charWidth, notInside]; rfl) drawn
  | case3 col first second rest pair ih =>
    have inside : insideHan line (col + 1) = true := by
      rw [insideHan_succ boundary, line_eq, col_eq]
      simpa [isHanAt] using pair
    rw [mem_append] at drawn
    rcases drawn with here | later
    · exact mem_drawChar (by simp [line_eq, col_eq]) boundary (by rw [charWidth, inside]; rfl) here
    · have behind : line = (done ++ [first, second]) ++ rest := by simp [line_eq]
      exact ih behind (by simp [col_eq]) (insideHan_succ_of_inside inside) later
  | case4 col first second rest notPair ih =>
    have notInside : insideHan line (col + 1) = false := by
      rw [insideHan_succ boundary, line_eq, col_eq]
      simpa [isHanAt] using notPair
    rw [mem_append] at drawn
    rcases drawn with here | later
    · exact mem_drawChar (by simp [line_eq, col_eq]) boundary
        (by rw [charWidth, notInside]; rfl) here
    · have behind : line = (done ++ [first]) ++ second :: rest := by simp [line_eq]
      exact ih behind (by simp [col_eq]) notInside later

theorem mem_drawRows {rows : List Row} (drawn : cell ∈ drawRows area width height row rows) :
    row ≤ cell.row ∧ ∃ line, rows[cell.row - row]? = some line ∧
      DrawnIn area width height line cell := by
  induction rows generalizing row with
  | nil => cases drawn
  | cons line rest ih =>
    rw [drawRows, mem_append] at drawn
    rcases drawn with here | below
    · have whole : line = [] ++ line := rfl
      obtain ⟨row_eq, isDrawn⟩ := mem_drawRow whole rfl (insideHan_zero line) here
      refine ⟨row_eq.ge, line, ?_, isDrawn⟩
      rw [row_eq, Nat.sub_self]
      rfl
    · obtain ⟨row_le, line, read, isDrawn⟩ := ih below
      refine ⟨by omega, line, ?_, isDrawn⟩
      rw [show cell.row - row = cell.row - (row + 1) + 1 by omega]
      exact read

/-- A character that is drawn is one of the text. -/
theorem mem_textCells {parent : Area} (drawn : cell ∈ textCells edit parent) :
    ∃ line, edit.text.data[cell.row]? = some line ∧
      DrawnIn (calcCurrentArea parent edit.area) (fontWidth edit.scale) (fontHeight edit.scale)
        line cell := by
  obtain ⟨-, line, read, isDrawn⟩ := mem_drawRows drawn
  exact ⟨line, read, isDrawn⟩

/-! ### The position of a press -/

theorem tdiv_eq_of_mul_le {n size : Int} (nonneg : 0 ≤ n) (positive : 0 < size) {position : Int}
    (least : n * size ≤ position) (below : position < n * size + size) :
    position.tdiv size = n := by
  have inside : 0 ≤ position :=
    Int.le_trans (Int.mul_nonneg nonneg (Int.le_of_lt positive)) least
  rw [Int.tdiv_eq_ediv_of_nonneg inside]
  apply Int.le_antisymm
  · rw [← Int.lt_add_one_iff, Int.ediv_lt_iff_lt_mul positive, Int.add_mul, Int.one_mul]
    exact below
  · rw [Int.le_ediv_iff_mul_le positive]
    exact least

section

variable {line : Row} (drawn : DrawnIn area width height line cell)

include drawn

/-- The position of a pixel of a character, in the coordinates of the text. -/
theorem DrawnIn.position {x y : Int} (hit : isPosInArea cell.area x y = true) :
    isPosInArea area x y = true ∧
      cell.col * width ≤ (mousePosTransform area x y).1 ∧
      (mousePosTransform area x y).1 < cell.col * width + charWidth line cell.col width ∧
      cell.row * height ≤ (mousePosTransform area x y).2 ∧
      (mousePosTransform area x y).2 < cell.row * height + height := by
  rw [drawn.area_eq] at hit
  obtain ⟨inside, inText⟩ := isPosInArea_calcCurrentArea hit
  obtain ⟨left, top, right, bottom⟩ := isPosInArea_iff.mp inText
  exact ⟨inside, left, right, top, bottom⟩

/-- The handler of the edit finds the row of a character. -/
theorem DrawnIn.row_eq (positive : 0 < height) {x y : Int}
    (hit : isPosInArea cell.area x y = true) :
    (mousePosTransform area x y).2.tdiv height = cell.row := by
  obtain ⟨-, -, -, top, bottom⟩ := drawn.position hit
  exact tdiv_eq_of_mul_le (Int.natCast_nonneg _) positive top bottom

/-- It finds the first column on the left, and the second column on the right
half of a Han character. -/
theorem DrawnIn.col_eq (positive : 0 < width) {x y : Int} (hit : isPosInArea cell.area x y = true) :
    (x < cell.area.x + width ∧ (mousePosTransform area x y).1.tdiv width = cell.col) ∨
      (¬ x < cell.area.x + width ∧ insideHan line (cell.col + 1) = true ∧
        (mousePosTransform area x y).1.tdiv width = (cell.col + 1 : Nat)) := by
  obtain ⟨-, left, right, -, -⟩ := drawn.position hit
  have left_eq : cell.area.x = area.x + (cell.col * width - area.offsetX) := by
    rw [drawn.area_eq]
    rfl
  have position_eq : (mousePosTransform area x y).1 = x - (area.x - area.offsetX) := rfl
  by_cases first : x < cell.area.x + width
  · exact .inl ⟨first, tdiv_eq_of_mul_le (Int.natCast_nonneg _) positive left (by omega)⟩
  refine .inr ⟨first, ?_⟩
  rw [charWidth] at right
  split at right
  · rename_i inside
    have next : ((cell.col + 1 : Nat) : Int) * width = cell.col * width + width := by
      rw [Int.natCast_add, Int.natCast_one, Int.add_mul, Int.one_mul]
    exact ⟨inside, tdiv_eq_of_mul_le (Int.natCast_nonneg _) positive (by omega) (by omega)⟩
  · omega

/-- A column to the right of the first one of a character leads behind it. -/
theorem DrawnIn.moveToPos_ne {text : Textframe} (read : text.data[cell.row]? = some line)
    {col : Int} (right : cell.col < col) :
    moveToPos text cell.row col ≠ moveToPos text cell.row cell.col := by
  have here : posColumn line cell.col = cell.col := by
    rw [posColumn_of_nonneg line (Int.natCast_nonneg _), cursorColumn,
      clampColumn_of_le drawn.col_lt.le, drawn.boundary]
    rfl
  have behind : cell.col + 1 ≤ posColumn line col := by
    rw [posColumn_of_nonneg line (by omega)]
    apply le_cursorColumn
    have inside := drawn.col_lt
    rw [clampColumn]
    omega
  intro same
  rw [moveToPos_of_line read, moveToPos_of_line read] at same
  have sameCol := congrArg Textframe.cursorCol same
  simp only at sameCol
  omega

end

end

/-! ## The edits of the file switch bar -/

namespace BufferManager

/-- The area of the file switch bar on the screen. -/
def barArea (manager : BufferManager) : Area :=
  calcCurrentArea (calcCurrentArea screen manager.area) manager.fileSwitch.area

/-- An edit that `draw_FileSwitchBar` draws, with the area of its parent on the
screen. -/
def shownEdit? (manager : BufferManager) : EditRef → Option (TextEdit × Area)
  | .file id =>
    if manager.fileSwitch.current = some id then
      manager.buffers[id]?.map fun buffer =>
        (buffer.edit, calcCurrentArea manager.barArea buffer.area)
    else none
  | .search =>
    if manager.fileSwitch.current.isSome ∧ manager.fileSwitch.ifSearch = true then
      some (manager.fileSwitch.search.edit,
        calcCurrentArea manager.barArea manager.fileSwitch.search.area)
    else none
  | .control _ => none

/-- The characters that `draw_BufferManager` draws in an edit of the bar. -/
def drawnCells (manager : BufferManager) (ref : EditRef) : List Cell :=
  match manager.shownEdit? ref with
  | none => []
  | some (edit, parent) =>
    textCells (drawTextEdit edit parent (manager.cursorFocus = some ref)) parent

end BufferManager

section

variable {manager next : BufferManager}

theorem drawFileNames_eq {area : Area} {files : List Nat}
    (drawn : drawFileNames manager area files = some next) :
    ∃ controls, next = { manager with controls := controls } := by
  induction files generalizing manager with
  | nil =>
    rw [drawFileNames, some.injEq] at drawn
    exact ⟨manager.controls, drawn.symm⟩
  | cons id rest ih =>
    obtain ⟨control, -, drawn⟩ := bind_eq_some_iff.mp drawn
    obtain ⟨controls, rfl⟩ := ih drawn
    exact ⟨controls, rfl⟩

theorem shownEdit?_drawCurrent (drawn : drawCurrent manager manager.barArea = some next)
    {ref : EditRef} {parent : Area} (shown : manager.shownEdit? ref = some (edit, parent)) :
    next.shownEdit? ref =
      some (drawTextEdit edit parent (manager.cursorFocus = some ref), parent) := by
  rw [drawCurrent] at drawn
  cases ref with
  | control id => cases shown
  | file id =>
    rw [shownEdit?] at shown
    split at shown
    · rename_i isCurrent
      obtain ⟨buffer, read, shown⟩ := map_eq_some_iff.mp shown
      obtain ⟨rfl, rfl⟩ := Prod.mk.inj shown
      obtain ⟨bound, -⟩ := List.getElem?_eq_some_iff.mp read
      simp only [isCurrent, read, bind_eq_bind, bind_some] at drawn
      have kept (bar : FileSwitchBar) (sameArea : bar.area = manager.fileSwitch.area)
          (sameCurrent : bar.current = some id) :
          shownEdit? { manager with
            fileSwitch := bar
            buffers := manager.buffers.set id { buffer with
              edit := drawTextEdit buffer.edit (calcCurrentArea manager.barArea buffer.area)
                (manager.cursorFocus = some (.file id)) } } (.file id) =
            some (drawTextEdit buffer.edit (calcCurrentArea manager.barArea buffer.area)
              (manager.cursorFocus = some (.file id)),
              calcCurrentArea manager.barArea buffer.area) := by
        simp [shownEdit?, barArea, sameArea, sameCurrent, bound]
      split at drawn
      · cases drawn
        exact kept _ rfl isCurrent
      · cases drawn
        exact kept manager.fileSwitch rfl isCurrent
    · cases shown
  | search =>
    rw [shownEdit?] at shown
    split at shown
    · rename_i isShown
      obtain ⟨id, isCurrent⟩ := isSome_iff_exists.mp isShown.1
      obtain ⟨rfl, rfl⟩ := Prod.mk.inj (some.inj shown)
      simp only [isCurrent] at drawn
      obtain ⟨buffer, read, drawn⟩ := bind_eq_some_iff.mp drawn
      split at drawn
      · cases drawn
        exact if_pos isShown
      · rename_i hidden
        exact absurd isShown.2 hidden
    · cases shown

variable (drawing : drawBufferManager manager = some next) {ref : EditRef}
include drawing

/-- Drawing leaves an edit as it was drawn. -/
theorem shownEdit?_drawn {parent : Area} (shown : manager.shownEdit? ref = some (edit, parent)) :
    next.shownEdit? ref =
      some (drawTextEdit edit parent (manager.cursorFocus = some ref), parent) := by
  obtain ⟨named, names, fromNames⟩ := bind_eq_some_iff.mp drawing
  obtain ⟨tabbed, tabs, fromTabs⟩ := bind_eq_some_iff.mp fromNames
  obtain ⟨edited, edits, returned⟩ := bind_eq_some_iff.mp fromTabs
  rw [some.injEq] at returned
  obtain ⟨controls, rfl⟩ := drawFileNames_eq names
  obtain ⟨tabButtons, rfl⟩ := placeTabs_eq tabs
  have sameEdits : next.shownEdit? ref = edited.shownEdit? ref := by
    rw [← returned]
    cases ref <;> rfl
  have before : shownEdit?
      { manager with controls := controls, tabButtons := tabButtons } ref =
        some (edit, parent) := by
    rw [← shown]
    cases ref <;> rfl
  rw [sameEdits]
  exact shownEdit?_drawCurrent edits before

/-- The characters drawn are those of the edit that drawing leaves. -/
theorem mem_drawnCells {cell : Cell} (drawn : cell ∈ manager.drawnCells ref) :
    ∃ edit parent, next.shownEdit? ref = some (edit, parent) ∧ cell ∈ textCells edit parent := by
  rw [BufferManager.drawnCells] at drawn
  split at drawn
  · cases drawn
  · rename_i edit parent shown
    exact ⟨_, parent, shownEdit?_drawn drawing shown, drawn⟩

end

end XEditor.Gui
