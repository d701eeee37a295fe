import XEditor.Gui.Cells
import XEditor.Text.Moves

/-!
# Clipping and scrolling

Each component draws in the part of its area that `calc_current_area` leaves of
it.  Through any chain of areas this part lies in every area above, even when one
of them has come out with a size that is negative.  A focused edit scrolls until
its cursor is in this part: where it is not, one adjustment of the offsets is
enough, and the second look at the cursor ends the loop.
-/

namespace XEditor.Gui

open List Edit Text

/-! ## Chains of areas -/

/-- What `calc_current_area` leaves of the last of a chain of areas, each in the
one before it and the first in the root. -/
def nestedArea (root : Area) (areas : List Area) : Area :=
  areas.foldl calcCurrentArea root

/-- A pixel is in every area of a chain, the root and the last one included. -/
def InEveryArea (root : Area) (areas : List Area) (x y : Int) : Prop :=
  ∀ n, isPosInArea (nestedArea root (areas.take n)) x y = true

theorem nestedArea_concat (root : Area) (areas : List Area) (area : Area) :
    nestedArea root (areas ++ [area]) = calcCurrentArea (nestedArea root areas) area :=
  foldl_concat ..

/-- By induction on the chain from its end: a pixel left of an area is one of the
area above. -/
theorem inEveryArea {root : Area} {areas : List Area} {x y : Int}
    (visible : isPosInArea (nestedArea root areas) x y = true) : InEveryArea root areas x y := by
  induction areas using reverseRecOn with
  | nil =>
    intro n
    rwa [take_nil]
  | append_singleton areas area ih =>
    have above : isPosInArea (nestedArea root areas) x y = true := by
      rw [nestedArea_concat] at visible
      exact (isPosInArea_calcCurrentArea visible).1
    intro n
    by_cases whole : areas.length < n
    · rwa [take_of_length_le (by rw [length_append, length_singleton]; omega)]
    · rw [take_append_of_le_length (by omega)]
      exact ih above n

/-- What a component draws stays in the areas of all its ancestors: the area it
fills, and each character of a text.  Below the root area of the window it stays
on the screen. -/
theorem drawn_inside_ancestors (root : Area) (areas : List Area) {x y : Int} :
    (isPosInArea (nestedArea root areas) x y = true → InEveryArea root areas x y) ∧
      (∀ edit : TextEdit, ∀ cell ∈ textCells edit (nestedArea root areas),
        isPosInArea cell.area x y = true → InEveryArea root (areas ++ [edit.area]) x y) ∧
      ((root.x, root.y, root.width, root.height) = (0, 0, 800, 600) →
        InEveryArea root areas x y → (0 ≤ x ∧ x < 800) ∧ 0 ≤ y ∧ y < 600) := by
  refine ⟨inEveryArea, ?_, ?_⟩
  · intro edit cell drawn hit
    obtain ⟨line, -, isDrawn⟩ := mem_textCells drawn
    rw [isDrawn.area_eq, ← nestedArea_concat] at hit
    exact inEveryArea (isPosInArea_calcCurrentArea hit).1
  · intro window inside
    obtain ⟨x_eq, y_eq, width_eq, height_eq⟩ : root.x = 0 ∧ root.y = 0 ∧ root.width = 800 ∧
      root.height = 600 := by simpa using window
    have onRoot := isPosInArea_iff.mp (inside 0)
    rw [take_zero, nestedArea, foldl_nil, x_eq, y_eq, width_eq, height_eq] at onRoot
    omega

/-! ## Scrolling -/

/-- The rectangle of the cursor in the visible area of an edit. -/
def cursorArea (area : Area) (text : Textframe) (cursorWidth width height : Int) : Area :=
  calcCurrentArea area ⟨text.cursorCol * width, text.cursorRow * height, cursorWidth, height, 0, 0⟩

/-- A rectangle with pixels that lies inside an area. -/
structure VisibleIn (area rect : Area) : Prop where
  width : 0 < rect.width
  height : 0 < rect.height
  left : area.x ≤ rect.x
  right : rect.x + rect.width ≤ area.x + area.width
  top : area.y ≤ rect.y
  bottom : rect.y + rect.height ≤ area.y + area.height

section

variable {parent : Area} {text : Textframe} {cursorWidth width height : Int}

/-- A cursor that is shown ends the loop. -/
theorem scrollToCursor_of_shown (own : Area)
    (origin : 0 ≤ (calcCurrentArea parent own).x ∧ 0 ≤ (calcCurrentArea parent own).y)
    (shown : VisibleIn (calcCurrentArea parent own)
      (cursorArea (calcCurrentArea parent own) text cursorWidth width height)) (tries : Nat) :
    scrollToCursor parent text cursorWidth width height (tries + 1) own = own := by
  have widthPos := shown.width
  have heightPos := shown.height
  have left := shown.left
  have top := shown.top
  rw [cursorArea] at widthPos heightPos left top
  exact if_neg (by omega)

/-- A cursor that the loop leaves alone at once is shown. -/
theorem shown_of_not_hidden {area : Area} (cursor : Area)
    (visible : ¬ ((calcCurrentArea area cursor).height ≤ 0 ∨
      (calcCurrentArea area cursor).width ≤ 0 ∨ (calcCurrentArea area cursor).x < 0 ∨
        (calcCurrentArea area cursor).y < 0)) :
    VisibleIn area (calcCurrentArea area cursor) := by
  simp only [calcCurrentArea] at visible
  constructor <;> simp only [calcCurrentArea] <;> split_ifs at visible ⊢ <;> omega

/-- With the offsets the loop computes, the cursor is shown at the right and lower
edge of the area at the latest. -/
theorem shown_of_adjusted {area : Area} (colNonneg : 0 ≤ text.cursorCol * width)
    (rowNonneg : 0 ≤ text.cursorRow * height) (cursorPos : 0 < cursorWidth)
    (cursorFits : cursorWidth ≤ width) (heightPos : 0 < height)
    (origin : 0 ≤ area.x ∧ 0 ≤ area.y) (room : width ≤ area.width ∧ height ≤ area.height)
    (offsetX : area.offsetX = max 0 (text.cursorCol * width - area.width + width))
    (offsetY : area.offsetY = max 0 (text.cursorRow * height - area.height + height)) :
    VisibleIn area (cursorArea area text cursorWidth width height) := by
  apply shown_of_not_hidden
  simp only [calcCurrentArea, offsetX, offsetY]
  split_ifs <;> omega

end

theorem fontWidth_pos {scale : Int} (zoom : 0 ≤ scale ∧ scale ≤ 2) :
    0 < fontWidth scale ∧ 0 < fontHeight scale := by
  obtain rfl | rfl | rfl : scale = 0 ∨ scale = 1 ∨ scale = 2 := by omega
  all_goals decide

/-- The cursor is shown in the visible area of the edit. -/
def CursorShown (edit : TextEdit) (parent : Area) : Prop :=
  VisibleIn (calcCurrentArea parent edit.area) (cursorArea (calcCurrentArea parent edit.area)
    edit.text 1 (fontWidth edit.scale) (fontHeight edit.scale))

/-- The visible area starts on the screen and has room for a character. -/
def HasRoom (edit : TextEdit) (parent : Area) : Prop :=
  let area := calcCurrentArea parent edit.area
  (0 ≤ area.x ∧ 0 ≤ area.y) ∧ fontWidth edit.scale ≤ area.width ∧
    fontHeight edit.scale ≤ area.height

instance (edit : TextEdit) (parent : Area) : Decidable (HasRoom edit parent) :=
  inferInstanceAs (Decidable (_ ∧ _))

/-- Drawing a focused edit scrolls it so that its cursor is shown, keeps offsets
that are not negative so, and leaves the edit as it is if the cursor is shown
already. -/
theorem drawTextEdit_shows_cursor (edit : TextEdit) (parent : Area) (valid : CursorValid edit.text)
    (zoom : 0 ≤ edit.scale ∧ edit.scale ≤ 2) (room : HasRoom edit parent) :
    let drawn := drawTextEdit edit parent true
    CursorShown drawn parent ∧
      (0 ≤ edit.area.offsetX ∧ 0 ≤ edit.area.offsetY →
        0 ≤ drawn.area.offsetX ∧ 0 ≤ drawn.area.offsetY) ∧
      (CursorShown edit parent → drawn = edit) := by
  intro drawn
  obtain ⟨widthPos, heightPos⟩ := fontWidth_pos zoom
  obtain ⟨line, -, colNonneg, -⟩ := valid.col
  have col := Int.mul_nonneg colNonneg widthPos.le
  have row := Int.mul_nonneg valid.row_nonneg heightPos.le
  by_cases shown : CursorShown edit parent
  · have unchanged : drawn = edit := by
      simp only [drawn, drawTextEdit, scrollToCursor_of_shown edit.area room.1 shown 9, if_true]
    rw [unchanged]
    exact ⟨shown, id, fun _ => rfl⟩
  · -- The first try adjusts the offsets, and the second finds the cursor shown.
    let adjusted : Area :=
      { edit.area with
        offsetX := max 0 (edit.text.cursorCol * fontWidth edit.scale -
          (calcCurrentArea parent edit.area).width + fontWidth edit.scale)
        offsetY := max 0 (edit.text.cursorRow * fontHeight edit.scale -
          (calcCurrentArea parent edit.area).height + fontHeight edit.scale) }
    have now : CursorShown { edit with area := adjusted } parent :=
      shown_of_adjusted col row Int.one_pos widthPos heightPos room.1 room.2 rfl rfl
    have drawn_eq : drawn = { edit with area := adjusted } := by
      have hidden := mt (shown_of_not_hidden _) shown
      simp only [drawn, drawTextEdit, if_true]
      rw [scrollToCursor, if_pos (not_not.mp hidden), scrollToCursor_of_shown adjusted room.1 now 8]
    rw [drawn_eq]
    exact ⟨now, fun _ => ⟨le_max_left _ _, le_max_left _ _⟩, fun isShown => absurd isShown shown⟩

/-- One letter, and the cursor behind it. -/
def oneLetterTyped : Textframe :=
  { lineEditSetStr [97] with cursorCol := 1 }

/-- An edit in the upper left corner of the window. -/
def cornerEdit (offsetX : Int) : TextEdit :=
  { makeTextEdit ⟨0, 0, 0⟩ none with
    area := ⟨0, 0, 100, 16, offsetX, 0⟩
    text := oneLetterTyped }

theorem cursorValid_oneLetterTyped : CursorValid oneLetterTyped :=
  ⟨by decide, by decide, by decide, [97], rfl, by decide, by decide⟩

theorem drawTextEdit_shows_cursor_corner :
    (cornerEdit 100).area.offsetX = 100 ∧
      CursorShown (drawTextEdit (cornerEdit 100) screen true) screen :=
  ⟨rfl, (drawTextEdit_shows_cursor (cornerEdit 100) screen cursorValid_oneLetterTyped (by decide)
    (by decide)).1⟩

/-- With a negative offset, which no part of the program stores, the cursor can be
shown already, and the offset stays. -/
theorem negative_offset_kept :
    let edit := cornerEdit (-8)
    CursorValid edit.text ∧ (0 ≤ edit.scale ∧ edit.scale ≤ 2) ∧ HasRoom edit screen ∧
      (drawTextEdit edit screen true).area.offsetX = -8 :=
  ⟨cursorValid_oneLetterTyped, by decide, by decide, by decide⟩

end XEditor.Gui
