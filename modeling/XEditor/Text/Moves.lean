import XEditor.Text.Cursor

/-!
# The cursor stays in the text

From a cursor inside the text every primitive runs without an access outside
it and leaves the cursor inside.  The primitives that only move the cursor also
leave it on a character boundary, whatever the bytes of the row are.
-/

namespace XEditor.Text

open List

/-- There is a row, the cursor is in one, and no further than its end. -/
structure CursorValid (text : Textframe) : Prop where
  rows : 1 ≤ text.maxrow
  row_nonneg : 0 ≤ text.cursorRow
  row_lt : text.cursorRow < text.maxrow
  col : ∃ line, text.line? text.cursorRow = some line ∧ 0 ≤ text.cursorCol ∧
    text.cursorCol ≤ line.length

/-- The cursor is inside the text and on a character boundary. -/
def Placed (text : Textframe) : Prop :=
  ∃ above left right below, Located text above left right below ∧
    insideHan (left ++ right) left.length = false

variable {text : Textframe}

variable {r : Nat}

/-- A row of a text has rows above and below. -/
theorem exists_rows_around (bound : r < text.data.length) :
    ∃ above row below, text.data = above ++ row :: below ∧ above.length = r := by
  refine ⟨text.data.take r, text.data.get ⟨r, bound⟩, text.data.drop (r + 1), ?_,
    length_take_of_le (Nat.le_of_lt bound)⟩
  rw [get_eq_getElem, ← drop_eq_getElem_cons bound, take_append_drop]

theorem Located.cursorValid {above below : List Row} {left right : Row}
    (located : Located text above left right below) : CursorValid text where
  rows := by
    rw [located.maxrow_eq]
    omega
  row_nonneg := by
    rw [located.row_eq]
    omega
  row_lt := by
    rw [located.maxrow_eq, located.row_eq]
    omega
  col := by
    refine ⟨_, located.line, ?_, ?_⟩
    · rw [located.col_eq]
      omega
    · rw [located.col_eq, length_append]
      omega

theorem Placed.cursorValid (placed : Placed text) : CursorValid text := by
  obtain ⟨above, left, right, below, located, -⟩ := placed
  exact located.cursorValid

/-- A cursor put into an existing row, no further than its end. -/
theorem exists_located_of_read {col : Nat} {row : Row} (read : text.data[r]? = some row)
    (col_le : col ≤ row.length) :
    ∃ above below, text.data = above ++ row :: below ∧
      Located { text with cursorRow := r, cursorCol := col } above (row.take col) (row.drop col)
        below := by
  have bound := (List.getElem?_eq_some_iff.mp read).1
  obtain ⟨above, line, below, data_eq, length_eq⟩ := exists_rows_around bound
  rw [← length_eq, Located.getElem?_length data_eq] at read
  cases read
  refine ⟨above, below, data_eq, ?_, ?_, ?_⟩
  · rw [take_append_drop]
    exact data_eq
  · rw [length_eq]
  · rw [length_take_of_le col_le]

theorem CursorValid.exists_located (valid : CursorValid text) :
    ∃ above left right below, Located text above left right below := by
  obtain ⟨r, row_eq⟩ := Int.eq_ofNat_of_zero_le valid.row_nonneg
  obtain ⟨line, read, col_nonneg, col_le⟩ := valid.col
  obtain ⟨col, col_eq⟩ := Int.eq_ofNat_of_zero_le col_nonneg
  rw [row_eq, Textframe.line?_natCast] at read
  obtain ⟨above, below, -, located⟩ := exists_located_of_read read (show col ≤ line.length by omega)
  rw [← row_eq, ← col_eq] at located
  exact ⟨_, _, _, _, located⟩

theorem CursorValid.data_ne_nil (valid : CursorValid text) : text.data ≠ [] := by
  intro empty
  have := valid.rows
  simp [Textframe.maxrow, empty] at this

/-! ## Moves -/

section

theorem adjustCursor_right_placed (row_eq : text.cursorRow = r) (bound : r < text.data.length) :
    Placed (adjustCursor text 0 1) := by
  obtain ⟨above, row, below, data_eq, length_eq⟩ := exists_rows_around bound
  rw [← length_eq] at row_eq
  refine ⟨_, _, _, _, Located.adjustCursor_row_right data_eq row_eq, ?_⟩
  rw [take_append_drop, length_take_of_le (cursorColumn_le _ _)]
  exact insideHan_cursorColumn _ _

theorem adjustCursor_left_placed (row_eq : text.cursorRow = r) (bound : r < text.data.length) :
    Placed (adjustCursor text 0 (-1)) := by
  obtain ⟨above, row, below, data_eq, length_eq⟩ := exists_rows_around bound
  rw [← length_eq] at row_eq
  refine ⟨_, _, _, _, Located.adjustCursor_row_left data_eq row_eq, ?_⟩
  rw [take_append_drop, length_take_of_le (startColumn_le _ _)]
  exact insideHan_startColumn _ _

/-- `move_to_pos` reaches a row, also from the marker -1 and from behind the last
row. -/
theorem moveToPos_placed (nonempty : text.data ≠ []) {r : Int} (least : -1 ≤ r) (c : Int) :
    Placed (moveToPos text r c) := by
  have nonneg : 0 ≤ if r = -1 then intMax else r := by
    have range : 0 ≤ intMax := by decide
    split <;> omega
  exact adjustCursor_right_placed (clampRow_eq nonempty nonneg) (clampRow_lt nonempty _)

theorem moveToPos_data (text : Textframe) (r c : Int) : (moveToPos text r c).data = text.data :=
  rfl

theorem moveToNextChar_placed (valid : CursorValid text) :
    ∃ next, moveToNextChar text = some next ∧ next.data = text.data ∧ Placed next := by
  obtain ⟨above, left, right, below, located⟩ := valid.exists_located
  cases right with
  | cons byte rest =>
    obtain ⟨moved, movedLocated, called⟩ := located.moveToNextChar_cons
    refine ⟨_, called, ?_, ?_⟩
    · have same := movedLocated.data_eq
      simp only [append_assoc, singleton_append] at same
      exact same.trans located.data_eq.symm
    · exact adjustCursor_right_placed movedLocated.row_eq movedLocated.row_lt_length
  | nil =>
    cases below with
    | nil =>
      exact ⟨text, located.moveToNextChar_last, rfl, _, _, _, _, located, insideHan_append_nil _⟩
    | cons next rest =>
      obtain ⟨moved, called, movedLocated⟩ := located.moveToNextChar_break
      refine ⟨moved, called, ?_, _, _, _, _, movedLocated, insideHan_zero _⟩
      rw [movedLocated.data_eq, located.data_eq]
      simp

theorem moveToPreviousChar_placed (valid : CursorValid text) :
    ∃ next, moveToPreviousChar text = some next ∧ next.data = text.data ∧ Placed next := by
  obtain ⟨above, left, right, below, located⟩ := valid.exists_located
  rcases eq_nil_or_concat' left with rfl | ⟨before, byte, rfl⟩
  · rcases eq_nil_or_concat' above with rfl | ⟨rows, prev, rfl⟩
    · exact ⟨text, located.moveToPreviousChar_first, rfl, _, _, _, _, located, insideHan_zero _⟩
    obtain ⟨moved, called, movedLocated⟩ := located.moveToPreviousChar_break
    refine ⟨moved, called, ?_, _, _, _, _, movedLocated, insideHan_append_nil _⟩
    rw [movedLocated.data_eq, located.data_eq]
    simp
  · obtain ⟨moved, movedLocated, called⟩ := located.moveToPreviousChar_concat
    refine ⟨_, called, ?_, ?_⟩
    · have same := located.data_eq
      simp only [append_assoc, singleton_append] at same
      exact movedLocated.data_eq.trans same.symm
    · exact adjustCursor_left_placed movedLocated.row_eq movedLocated.row_lt_length

theorem moveToNextLine_data (text : Textframe) : (moveToNextLine text).data = text.data := by
  unfold moveToNextLine
  split <;> rfl

theorem moveToNextLine_placed (valid : CursorValid text) : Placed (moveToNextLine text) := by
  obtain ⟨above, left, right, below, located⟩ := valid.exists_located
  have bound := located.row_lt_length
  rw [moveToNextLine]
  split
  · rename_i more
    rw [Textframe.maxrow] at more
    have row_eq : text.cursorRow + 1 = (above.length + 1 : Nat) := by
      rw [located.row_eq]
      rfl
    exact adjustCursor_right_placed row_eq (show above.length + 1 < text.data.length by omega)
  · exact adjustCursor_right_placed located.row_eq bound

theorem moveToLastLine_data (text : Textframe) : (moveToLastLine text).data = text.data := by
  unfold moveToLastLine
  split <;> rfl

theorem moveToLastLine_placed (valid : CursorValid text) : Placed (moveToLastLine text) := by
  obtain ⟨above, left, right, below, located⟩ := valid.exists_located
  have bound := located.row_lt_length
  rw [moveToLastLine]
  split
  · rename_i later
    rw [located.row_eq] at later
    have row_eq : text.cursorRow - 1 = (above.length - 1 : Nat) := by
      rw [located.row_eq]
      omega
    exact adjustCursor_right_placed row_eq (show above.length - 1 < text.data.length by omega)
  · exact adjustCursor_right_placed located.row_eq bound

end

/-! ## Edits -/

section

section

variable {above below : List Row} {left right : Row} (located : Located text above left right below)
include located

/-- Aligning a cursor to the right puts it on a boundary of its row. -/
theorem Located.align :
    ∃ front back, front ++ back = left ++ right ∧
      insideHan (front ++ back) front.length = false ∧
      Located (adjustCursor text 0 1) above front back below := by
  refine ⟨_, _, take_append_drop _ _, ?_, adjustCursor_row_right located.data_eq located.row_eq⟩
  rw [take_append_drop, length_take_of_le (cursorColumn_le _ _)]
  exact insideHan_cursorColumn _ _

/-- `new_line_to_editor` splits the row at the boundary the cursor is aligned
to. -/
theorem Located.newLineToEditor_split :
    ∃ next front back, Text.newLineToEditor text = some next ∧ front ++ back = left ++ right ∧
      insideHan (front ++ back) front.length = false ∧
      Located next (above ++ [front]) [] back below := by
  obtain ⟨front, back, same, boundary, aligned⟩ := located.align
  obtain ⟨next, called, nextLocated⟩ := aligned.newLineToEditor boundary
  refine ⟨next, front, back, ?_, same, boundary, nextLocated⟩
  rw [← called, Text.newLineToEditor, Text.newLineToEditor, aligned.adjustCursor_boundary boundary]

end

variable (valid : CursorValid text)
include valid

theorem newLineToEditor_valid : ∃ next, newLineToEditor text = some next ∧ CursorValid next := by
  obtain ⟨above, left, right, below, located⟩ := valid.exists_located
  obtain ⟨next, front, back, called, -, -, nextLocated⟩ := located.newLineToEditor_split
  exact ⟨next, called, nextLocated.cursorValid⟩

theorem putcToStr_valid (ch : UInt8) :
    ∃ next, putcToStr text ch = some next ∧ CursorValid next := by
  obtain ⟨above, left, right, below, located⟩ := valid.exists_located
  by_cases isNul : ch = 0
  · obtain ⟨next, called, nextLocated⟩ := located.putcToStr_nul
    exact ⟨next, isNul ▸ called, nextLocated.cursorValid⟩
  · obtain ⟨next, called, nextLocated⟩ := located.putcToStr isNul
    exact ⟨next, called, nextLocated.cursorValid⟩

theorem backspaceToStr_valid : ∃ next, backspaceToStr text = some next ∧ CursorValid next := by
  obtain ⟨above, left, right, below, located⟩ := valid.exists_located
  obtain ⟨front, back, -, boundary, aligned⟩ := located.align
  obtain ⟨next, called, nextLocated⟩ := aligned.backspaceToStr boundary
  refine ⟨next, ?_, nextLocated.cursorValid⟩
  rw [← called, backspaceToStr, backspaceToStr, aligned.adjustCursor_boundary boundary]

theorem moveCurLineToPrevLine_valid :
    ∃ next, moveCurLineToPrevLine text = some next ∧ CursorValid next := by
  obtain ⟨above, left, right, below, located⟩ := valid.exists_located
  rcases eq_nil_or_concat' above with rfl | ⟨rows, prev, rfl⟩
  · exact ⟨text, located.moveCurLineToPrevLine_first, valid⟩
  · obtain ⟨next, front, back, called, -, -, nextLocated⟩ := located.moveCurLineToPrevLine_join
    exact ⟨next, called, nextLocated.cursorValid⟩

end

end XEditor.Text
