import XEditor.Text.Frame

/-!
# The cursor inside a text

`Located text above left right below` names the parts of a text around its
cursor: the rows above, the two halves of the cursor's row, and the rows below.
Each editing primitive gets one equation in these terms, and the proofs about
editing use the equations instead of the primitives.
-/

namespace XEditor.Text

open List Option Pairing

/-- The cursor stands between `left` and `right`. -/
structure Located (text : Textframe) (above : List Row) (left right : Row)
    (below : List Row) : Prop where
  data_eq : text.data = above ++ (left ++ right) :: below
  row_eq : text.cursorRow = above.length
  col_eq : text.cursorCol = left.length

/-- A cut inside a Han character is one between two Han bytes, behind an odd
number of them. -/
theorem insideHan_append (left right : Row) :
    insideHan (left ++ right) left.length =
      (right.head?.any isHan && decide (markedSuffix isHan left % 2 = 1)) := by
  rw [insideHan, isHanAt, getElem?_append_right (Nat.le_refl _), Nat.sub_self,
    take_left, head?_eq_getElem?]

@[simp]
theorem insideHan_length (line : Row) : insideHan line line.length = false := by
  simp [insideHan, isHanAt]

/-- The end of a row is a character boundary. -/
theorem insideHan_append_nil (left : Row) : insideHan (left ++ []) left.length = false := by
  rw [append_nil, insideHan_length]

@[simp]
theorem insideHan_zero (line : Row) : insideHan line 0 = false := by
  simp [insideHan]

namespace Located

variable {text : Textframe} {above below : List Row} {left right : Row}

theorem getElem?_length {row : Row} (data_eq : text.data = above ++ row :: below) :
    text.data[above.length]? = some row := by
  rw [data_eq, getElem?_append_right (Nat.le_refl _), Nat.sub_self]
  rfl

section

variable (located : Located text above left right below)

include located

theorem getElem?_row : text.data[above.length]? = some (left ++ right) :=
  getElem?_length located.data_eq

theorem line : text.line? text.cursorRow = some (left ++ right) := by
  rw [located.row_eq, Textframe.line?_natCast, located.getElem?_row]

theorem maxrow_eq : text.maxrow = above.length + 1 + below.length := by
  simp only [Textframe.maxrow, located.data_eq, length_append, length_cons]
  omega

theorem row_lt_length : above.length < text.data.length := by
  rw [located.data_eq, length_append, length_cons]
  omega

/-- Replacing the cursor's row. -/
theorem set_row (row : Row) : text.data.set text.cursorRow.toNat row = above ++ row :: below := by
  rw [located.data_eq, located.row_eq, Int.toNat_natCast,
    set_append_right _ _ (Nat.le_refl _), Nat.sub_self]
  rfl

end

variable {byte : UInt8}

/-- Putting the cursor at an existing place. -/
theorem at_cursor (data_eq : text.data = above ++ (left ++ right) :: below) :
    Located { text with cursorRow := above.length, cursorCol := left.length }
      above left right below :=
  ⟨data_eq, rfl, rfl⟩

/-! ## Alignment -/

theorem adjustCursor_eq (located : Located text above left right below) (dir : Int) :
    adjustCursor text 0 dir =
      { text with
        cursorCol := if insideHan (left ++ right) left.length then left.length + dir
          else left.length } := by
  rw [adjustCursor, located.row_eq, located.col_eq,
    textframeAdjustRC_of_line located.getElem?_row, adjustColumn_left, clampColumn_of_le (by simp)]

/-- On a character boundary alignment does nothing. -/
theorem adjustCursor_boundary (located : Located text above left right below)
    (boundary : insideHan (left ++ right) left.length = false) (dir : Int) :
    adjustCursor text 0 dir = text := by
  rw [located.adjustCursor_eq, boundary, if_neg Bool.false_ne_true, ← located.col_eq]

/-- Aligning to the right steps over the second byte of the character. -/
theorem adjustCursor_right (located : Located text above left (byte :: right) below)
    (inside : insideHan (left ++ byte :: right) left.length = true) :
    Located (adjustCursor text 0 1) above (left ++ [byte]) right below := by
  rw [located.adjustCursor_eq, if_pos inside]
  refine ⟨?_, located.row_eq, ?_⟩
  · simpa using located.data_eq
  · simp

/-- Aligning to the left steps back over its first byte. -/
theorem adjustCursor_left (located : Located text above (left ++ [byte]) right below)
    (inside : insideHan (left ++ [byte] ++ right) (left ++ [byte]).length = true) :
    Located (adjustCursor text 0 (-1)) above left (byte :: right) below := by
  rw [located.adjustCursor_eq, if_pos inside]
  refine ⟨?_, located.row_eq, ?_⟩
  · simpa using located.data_eq
  · simp only [length_append, length_singleton]
    omega

section

variable {row : Row} (data_eq : text.data = above ++ row :: below)
  (row_eq : text.cursorRow = above.length)
include data_eq row_eq

/-- Aligning to the right in an existing row, from any column. -/
theorem adjustCursor_row_right :
    Located (adjustCursor text 0 1) above (row.take (cursorColumn row text.cursorCol))
      (row.drop (cursorColumn row text.cursorCol)) below := by
  rw [adjustCursor, row_eq, textframeAdjustRC_of_line (getElem?_length data_eq),
    adjustColumn_cursor]
  refine ⟨?_, rfl, ?_⟩
  · rw [take_append_drop]
    exact data_eq
  · rw [length_take_of_le (cursorColumn_le _ _)]

/-- Aligning to the left in an existing row, from any column. -/
theorem adjustCursor_row_left :
    Located (adjustCursor text 0 (-1)) above (row.take (startColumn row text.cursorCol))
      (row.drop (startColumn row text.cursorCol)) below := by
  rw [adjustCursor, row_eq, textframeAdjustRC_of_line (getElem?_length data_eq), adjustColumn_start]
  refine ⟨?_, rfl, ?_⟩
  · rw [take_append_drop]
    exact data_eq
  · rw [length_take_of_le (startColumn_le _ _)]

end

/-- `move_to_pos` on an existing row. -/
theorem moveToPos_row {text : Textframe} {row : Row}
    (data_eq : text.data = above ++ row :: below) (c : Int) :
    Located (moveToPos text above.length c) above (row.take (posColumn row c))
      (row.drop (posColumn row c)) below := by
  rw [moveToPos_of_line (getElem?_length data_eq)]
  refine ⟨?_, rfl, ?_⟩
  · rw [take_append_drop]
    exact data_eq
  · rw [length_take_of_le (posColumn_le _ _)]

/-- Moving to the start of a row. -/
theorem moveToPos_start (data_eq : text.data = above ++ right :: below) :
    Located (moveToPos text above.length 0) above [] right below := by
  have start : posColumn right 0 = 0 := by
    simp [posColumn_of_nonneg, cursorColumn, clampColumn]
  have moved := moveToPos_row data_eq 0
  rwa [start] at moved

/-! ## Editing the row -/

section

variable (located : Located text above left right below)

include located

/-- `putc_to_str` inserts the byte behind the cursor. -/
theorem putcToStr {ch : UInt8} (notNul : ch ≠ 0) :
    ∃ next, Text.putcToStr text ch = some next ∧ Located next above left (ch :: right) below := by
  have inRow : ¬ (text.cursorCol < 0 ∨ text.cursorCol > (left ++ right).length) := by
    rw [located.col_eq, length_append]
    omega
  simp only [Text.putcToStr, located.line, bind_eq_bind, bind_some, if_neg inRow,
    if_neg notNul, located.set_row]
  refine ⟨_, rfl, ?_, located.row_eq, located.col_eq⟩
  simp [located.col_eq]

/-- Storing a NUL cuts the row off at the cursor. -/
theorem putcToStr_nul :
    ∃ next, Text.putcToStr text 0 = some next ∧ Located next above left [] below := by
  have inRow : ¬ (text.cursorCol < 0 ∨ text.cursorCol > (left ++ right).length) := by
    rw [located.col_eq, length_append]
    omega
  simp only [Text.putcToStr, located.line, bind_eq_bind, bind_some, if_neg inRow,
    if_true, located.set_row]
  refine ⟨_, rfl, ?_, located.row_eq, located.col_eq⟩
  simp [located.col_eq]

variable (boundary : insideHan (left ++ right) left.length = false)
include boundary

/-- `new_line_to_editor` on a character boundary splits the row there. -/
theorem newLineToEditor :
    ∃ next, Text.newLineToEditor text = some next ∧
      Located next (above ++ [left]) [] right below := by
  have inRow : ¬ (text.cursorCol < 0 ∨ text.cursorCol > (left ++ right).length) := by
    rw [located.col_eq, length_append]
    omega
  simp only [Text.newLineToEditor, located.adjustCursor_boundary boundary, located.line,
    bind_eq_bind, bind_some, if_neg inRow]
  refine ⟨_, rfl, ?_⟩
  have position : (above.length : Int) + 1 = (above ++ [left]).length := by simp
  have rest : (((left ++ right).length : Int) - left.length).toNat = right.length := by
    rw [length_append]
    omega
  rw [located.row_eq, located.col_eq, substr_eq, Int.toNat_natCast, Int.toNat_natCast, rest,
    position]
  apply moveToPos_start
  simp [located.data_eq]

/-- `backspace_to_str` on a character boundary removes the character behind the
cursor. -/
theorem backspaceToStr :
    ∃ next, Text.backspaceToStr text = some next ∧
      Located next above left (right.drop (if right.head?.any isHan then 2 else 1)) below := by
  have notNegative : ¬ text.cursorCol < 0 := by
    rw [located.col_eq]
    omega
  have behind : isHanAt (left ++ right) left.length = right.head?.any isHan := by
    rw [isHanAt, getElem?_append_right (Nat.le_refl _), Nat.sub_self, head?_eq_getElem?]
  have erased (row : Row) : (left ++ row).eraseIdx left.length = left ++ row.drop 1 := by
    rw [eraseIdx_append_of_length_le (Nat.le_refl _), Nat.sub_self, eraseIdx_zero, drop_one]
  simp only [Text.backspaceToStr, located.adjustCursor_boundary boundary, located.line,
    bind_eq_bind, bind_some, if_neg notNegative, located.set_row]
  refine ⟨_, rfl, ?_, located.row_eq, located.col_eq⟩
  simp only [located.col_eq, Int.toNat_natCast, behind, erased]
  split
  · rw [drop_drop]
  · rfl

end

/-- In the first row `move_cur_line_to_prev_line` does nothing. -/
theorem moveCurLineToPrevLine_first (located : Located text [] left right below) :
    moveCurLineToPrevLine text = some text := by
  have firstRow : ¬ (0 < text.cursorRow ∧ text.cursorRow < text.maxrow) := by
    rw [located.row_eq, length_nil]
    omega
  rw [moveCurLineToPrevLine, if_neg firstRow]

/-- Elsewhere it joins the row with the one above and goes to the end. -/
theorem moveCurLineToPrevLine_join {prev : Row}
    (located : Located text (above ++ [prev]) left right below) :
    ∃ next front back, moveCurLineToPrevLine text = some next ∧
      front ++ back = prev ++ (left ++ right) ∧
      front.length = posColumn (prev ++ (left ++ right)) (-1) ∧
      Located next above front back below := by
  have laterRow : 0 < text.cursorRow ∧ text.cursorRow < text.maxrow := by
    rw [located.row_eq, located.maxrow_eq, length_append, length_singleton]
    omega
  have prevRow : text.cursorRow - 1 = above.length := by
    rw [located.row_eq, length_append, length_singleton]
    omega
  have row_eq : text.cursorRow.toNat = above.length + 1 := by omega
  have prevLine : text.line? (above.length : Int) = some prev := by
    rw [Textframe.line?_natCast, located.data_eq, append_assoc,
      getElem?_append_right (Nat.le_refl _), Nat.sub_self]
    rfl
  have joined (row : Row) : (text.data.set above.length row).eraseIdx (above.length + 1) =
      above ++ row :: below := by
    rw [located.data_eq, append_assoc, set_append_right _ _ (Nat.le_refl _),
      Nat.sub_self, eraseIdx_append_of_length_le (by omega)]
    simp
  simp only [moveCurLineToPrevLine, if_pos laterRow, located.line, prevRow, prevLine,
    bind_eq_bind, bind_some, strcat_length, row_eq, Nat.add_sub_cancel, joined]
  refine ⟨_, _, _, rfl, take_append_drop _ _, length_take_of_le (posColumn_le _ _), ?_⟩
  apply moveToPos_row
  rfl

/-! ## Moving the cursor -/

/-- `move_to_next_char` inside a row steps over a byte and aligns. -/
theorem moveToNextChar_cons {rest : Row} (located : Located text above left (byte :: rest) below) :
    ∃ moved, Located moved above (left ++ [byte]) rest below ∧
      moveToNextChar text = some (adjustCursor moved 0 1) := by
  have inside : text.cursorCol < (left ++ byte :: rest).length := by
    rw [located.col_eq, length_append, length_cons]
    omega
  simp only [moveToNextChar, located.line, bind_eq_bind, bind_some, if_pos inside]
  refine ⟨{ text with cursorCol := text.cursorCol + 1 }, ⟨?_, located.row_eq, ?_⟩, rfl⟩
  · simpa using located.data_eq
  · simp [located.col_eq]

/-- A byte that is stored and stepped over ends up in front of the cursor,
which is then aligned. -/
theorem putcToStr_next (located : Located text above left right below) {ch : UInt8}
    (notNul : ch ≠ 0) :
    ∃ moved, Located moved above (left ++ [ch]) right below ∧
      (Text.putcToStr text ch).bind moveToNextChar = some (adjustCursor moved 0 1) := by
  obtain ⟨stored, putc, storedLocated⟩ := located.putcToStr notNul
  obtain ⟨moved, movedLocated, next⟩ := storedLocated.moveToNextChar_cons
  exact ⟨moved, movedLocated, by rw [putc, bind_some, next]⟩

/-- At the end of the last row it stays. -/
theorem moveToNextChar_last (located : Located text above left [] []) :
    moveToNextChar text = some text := by
  have atEnd : ¬ text.cursorCol < (left ++ []).length := by
    rw [located.col_eq, append_nil]
    omega
  have lastRow : ¬ text.cursorRow + 1 < text.maxrow := by
    rw [located.row_eq, located.maxrow_eq, length_nil]
    omega
  simp only [moveToNextChar, located.line, bind_eq_bind, bind_some, if_neg atEnd, if_neg lastRow]
  rw [located.adjustCursor_boundary (insideHan_append_nil _)]

/-- At the end of another row it goes to the start of the next one. -/
theorem moveToNextChar_break {next : Row} {rest : List Row}
    (located : Located text above left [] (next :: rest)) :
    ∃ moved, moveToNextChar text = some moved ∧ Located moved (above ++ [left]) [] next rest := by
  have atEnd : ¬ text.cursorCol < (left ++ []).length := by
    rw [located.col_eq, append_nil]
    omega
  have more : text.cursorRow + 1 < text.maxrow := by
    rw [located.row_eq, located.maxrow_eq, length_cons]
    omega
  simp only [moveToNextChar, located.line, bind_eq_bind, bind_some, if_neg atEnd, if_pos more]
  have moved : Located { text with cursorRow := text.cursorRow + 1, cursorCol := 0 }
      (above ++ [left]) [] next rest := by
    refine ⟨?_, ?_, rfl⟩
    · simpa using located.data_eq
    · simp [located.row_eq]
  exact ⟨_, rfl, by rwa [moved.adjustCursor_boundary (by simp)]⟩

/-- `move_to_previous_char` inside a row steps back over a byte and aligns. -/
theorem moveToPreviousChar_concat (located : Located text above (left ++ [byte]) right below) :
    ∃ moved, Located moved above left (byte :: right) below ∧
      moveToPreviousChar text = some (adjustCursor moved 0 (-1)) := by
  have inside : text.cursorCol > 0 := by
    rw [located.col_eq, length_append, length_singleton]
    omega
  rw [moveToPreviousChar, if_pos inside]
  refine ⟨{ text with cursorCol := text.cursorCol - 1 }, ⟨?_, located.row_eq, ?_⟩, rfl⟩
  · simpa using located.data_eq
  · simp [located.col_eq]

/-- At the start of the text it stays. -/
theorem moveToPreviousChar_first (located : Located text [] [] right below) :
    moveToPreviousChar text = some text := by
  have atStart : ¬ text.cursorCol > 0 := by
    rw [located.col_eq, length_nil]
    omega
  have firstRow : ¬ text.cursorRow > 0 := by
    rw [located.row_eq, length_nil]
    omega
  rw [moveToPreviousChar, if_neg atStart, if_neg firstRow, located.adjustCursor_boundary (by simp)]

/-- At the start of another row it goes to the end of the one above. -/
theorem moveToPreviousChar_break {prev : Row}
    (located : Located text (above ++ [prev]) [] right below) :
    ∃ moved, moveToPreviousChar text = some moved ∧
      Located moved above prev [] (right :: below) := by
  have atStart : ¬ text.cursorCol > 0 := by
    rw [located.col_eq, length_nil]
    omega
  have laterRow : text.cursorRow > 0 := by
    rw [located.row_eq, length_append, length_singleton]
    omega
  have prevRow : text.cursorRow - 1 = above.length := by
    rw [located.row_eq, length_append, length_singleton]
    omega
  have split : text.data = above ++ (prev ++ []) :: right :: below := by
    simpa using located.data_eq
  have moved := at_cursor split
  have prevLine : text.line? (above.length : Int) = some prev := by
    simpa using moved.getElem?_row
  rw [moveToPreviousChar, if_neg atStart, if_pos laterRow, prevRow, prevLine]
  refine ⟨_, rfl, ?_⟩
  rwa [moved.adjustCursor_boundary (insideHan_append_nil _)]

end Located

end XEditor.Text
