import XEditor.Edit.CutPaste
import XEditor.Edit.FlatBuffer

/-!
# Keys that replace a selection

Where the cursor is after a selection is deleted, and what the direction in
which a selection was dragged changes.  `textframe_delete` aligns the start
column to the left in the old text, while the cursor goes to the column as it
was marked, aligned to the right in the new text; a printable key does not put
the two points in order first.
-/

namespace XEditor.Edit

open List Option Text Pairing

/-! ## The cursor after a deletion -/

section

variable {text : Textframe} (selection : Selection text)

/-- The joined row starts with what stood in front of the selection. -/
theorem exists_joined_eq :
    ∃ tail, joined selection = selection.startLine.take selection.fromCol ++ tail ∧
      (tail = [] ↔ selection.endLine.length ≤ selection.toCol + 1 ∨
        selection.startLine.length ≤ selection.toCol + 1) := by
  refine ⟨_, rfl, ?_⟩
  rw [← length_eq_zero_iff, length_take, length_drop]
  omega

/-- In a row of whole characters the place of the deletion is a boundary. -/
theorem insideHan_joined_fromCol (whole : Paired isHan selection.startLine) :
    insideHan (joined selection) selection.fromCol = false := by
  have boundary : insideHan selection.startLine selection.fromCol = false := by
    rw [selection.fromCol_eq]
    exact insideHan_startColumn _ _
  obtain ⟨tail, joined_eq, -⟩ := exists_joined_eq selection
  have cut := insideHan_of_paired (paired_take_of_boundary whole boundary) tail
  rwa [length_take_of_le selection.fromCol_le, ← joined_eq] at cut

theorem fromCol_le_startCol (nonneg : 0 ≤ selection.startCol) :
    (selection.fromCol : Int) ≤ selection.startCol := by
  rw [selection.fromCol_eq, startColumn]
  unfold clampColumn
  split <;> omega

theorem fromCol_eq_zero_of_neg (negative : selection.startCol < 0) : selection.fromCol = 0 := by
  rw [selection.fromCol_eq, startColumn]
  unfold clampColumn
  split <;> omega

/-- From any other column the cursor moves past the place of the deletion, if
there is something to move past. -/
theorem min_le_posColumn_joined (moved : selection.startCol ≠ selection.fromCol) :
    min (selection.fromCol + 1) (joined selection).length ≤
      posColumn (joined selection) selection.startCol := by
  refine le_cursorColumn _ ?_
  have large : (1 : Int) ≤ intMax := by decide
  unfold clampColumn clipColumn
  by_cases negative : selection.startCol < 0
  · have fromCol_eq := fromCol_eq_zero_of_neg selection negative
    split_ifs <;> omega
  · have fromCol_le := fromCol_le_startCol selection (by omega)
    split_ifs <;> omega

/-- The cursor is at the place of the deletion exactly when the start column was
marked there, or nothing stands behind it. -/
theorem posColumn_joined_eq_iff (whole : Paired isHan selection.startLine) :
    posColumn (joined selection) selection.startCol = selection.fromCol ↔
      selection.startCol = selection.fromCol ∨
        selection.endLine.length ≤ selection.toCol + 1 ∨
          selection.startLine.length ≤ selection.toCol + 1 := by
  obtain ⟨tail, joined_eq, tail_iff⟩ := exists_joined_eq selection
  have length := congrArg List.length joined_eq
  rw [length_append, length_take_of_le selection.fromCol_le] at length
  rw [← tail_iff, ← length_eq_zero_iff]
  by_cases aligned : selection.startCol = selection.fromCol
  · refine iff_of_true ?_ (.inl aligned)
    rw [aligned, posColumn_of_nonneg _ (Int.natCast_nonneg _), cursorColumn_fromCol,
      insideHan_joined_fromCol selection whole, if_neg Bool.false_ne_true]
  · have low := min_le_posColumn_joined selection aligned
    have high := posColumn_le (joined selection) selection.startCol
    rw [or_iff_right aligned]
    omega

end

/-- Where the cursor of a component is after a key. -/
def cursorAfter (result : Option (TextEdit × Option Textframe)) : Option (Int × Int) :=
  result.map fun after => (after.1.text.cursorRow, after.1.text.cursorCol)

/-- After `BACKSPACE` the cursor is where the selection was deleted, if and only
if the start column was marked on that boundary or no text is left behind it. -/
theorem backspace_cursor_at_cut_iff (edit : TextEdit) (selection : Selection edit.text)
    (whole : ∀ row ∈ edit.text.data, Paired isHan row) (marked : selection.endCol ≠ -1)
    (clipBoard : Option Textframe) :
    cursorAfter (handleKeyboardTextEdit (markSelection edit selection) clipBoard backspace) =
        some ((selection.startRow : Int), (selection.fromCol : Int)) ↔
      selection.startCol = selection.fromCol ∨
        selection.endLine.length ≤ selection.toCol + 1 ∨
          selection.startLine.length ≤ selection.toCol + 1 := by
  have startWhole := whole selection.startLine (mem_of_getElem? selection.read_startLine)
  have pressed : backspaceKey (markSelection edit selection) =
      some (afterCut selection (deleted (cutRows selection))) := by
    have marks : ¬ (markSelection edit selection).point2Col = -1 := marked
    rw [backspaceKey, if_neg marks, textEditAdjustColRow_markSelection,
      replaceSelection_markSelection, textframeDelete_eq_cutRows, map_some]
  have cursor : cursorAfter
      (handleKeyboardTextEdit (markSelection edit selection) clipBoard backspace) =
        some ((selection.startRow : Int), (cutColumn selection : Int)) := by
    rw [handleKeyboardTextEdit_backspace, pressed]
    rfl
  rw [cursor, ← posColumn_joined_eq_iff selection startWhole, some.injEq, Prod.mk.injEq,
    and_iff_right rfl, cutColumn, Int.natCast_inj]

/-- A Han character followed by `a` and `b`. -/
def hanRow : TextEdit :=
  { makeTextEdit ⟨0, 0, 0⟩ (some .fileBuffer) with
    text := { data := [[176, 161, 97, 98]], cursorRow := 0, cursorCol := 0, maxrowCapacity := 1 } }

/-- The selection from a column through the `a`. -/
def throughLetter (startCol : Int) (ordered : startCol ≤ 2) : Selection hanRow.text where
  startRow := 0
  startCol := startCol
  endRow := 0
  endCol := 2
  rows_le := Nat.le_refl Nat.zero
  endRow_lt := by decide
  cols_le := fun _ => ordered

theorem hanRow_whole : ∀ row ∈ hanRow.text.data, Paired isHan row := by
  decide

theorem backspace_cursor_at_cut_hanRow :
    cursorAfter (handleKeyboardTextEdit
        (markSelection hanRow (throughLetter 0 (by decide))) none backspace) = some (0, 0) :=
  (backspace_cursor_at_cut_iff hanRow (throughLetter 0 (by decide)) hanRow_whole (by decide)
    none).mpr (.inl (by decide))

/-- Marked from inside the character, the selection is deleted from its first
byte on, and the cursor goes behind the `b`. -/
theorem backspace_cursor_behind_cut :
    (throughLetter 1 (by decide)).fromCol = 0 ∧
      cursorAfter (handleKeyboardTextEdit
        (markSelection hanRow (throughLetter 1 (by decide))) none backspace) = some (0, 1) := by
  decide

/-! ## The direction of a drag -/

/-- A component with a selection dragged from one position to another. -/
def dragged (edit : TextEdit) (first last : Nat × Nat) : TextEdit :=
  { edit with
    point1Row := first.1
    point1Col := first.2
    point2Row := last.1
    point2Col := last.2 }

/-- The keys that replace a selection. -/
def ReplacesSelection (c : Int) : Prop :=
  c = enter ∨ c = backspace ∨ c = ctrlV ∨ 32 ≤ c ∧ c ≤ 126

/-- The rows and the cursor of a component after a key. -/
def rowsAndCursor (result : Option (TextEdit × Option Textframe)) :
    Option (List Row × Int × Int) :=
  result.map fun after =>
    (after.1.text.data, after.1.text.cursorRow, after.1.text.cursorCol)

section

variable (edit : TextEdit) (first last : Nat × Nat)

theorem dragged_marked : (dragged edit first last).point2Col ≠ -1 := by
  change ((last.2 : Nat) : Int) ≠ -1
  omega

theorem textEditAdjustColRow_of_before
    (before : last.1 < first.1 ∨ last.1 = first.1 ∧ last.2 < first.2) :
    textEditAdjustColRow (dragged edit first last) = dragged edit last first := by
  rw [textEditAdjustColRow, if_pos]
  · rfl
  · simp only [dragged]
    omega

theorem textEditAdjustColRow_of_not_before
    (notBefore : ¬ (last.1 < first.1 ∨ last.1 = first.1 ∧ last.2 < first.2)) :
    textEditAdjustColRow (dragged edit first last) = dragged edit first last := by
  rw [textEditAdjustColRow, if_neg]
  simp only [dragged]
  omega

/-- Ordering the points forgets the direction. -/
theorem textEditAdjustColRow_dragged :
    textEditAdjustColRow (dragged edit first last) =
      textEditAdjustColRow (dragged edit last first) := by
  by_cases before : last.1 < first.1 ∨ last.1 = first.1 ∧ last.2 < first.2
  · rw [textEditAdjustColRow_of_before edit first last before,
      textEditAdjustColRow_of_not_before edit last first (by omega)]
  by_cases behind : first.1 < last.1 ∨ first.1 = last.1 ∧ first.2 < last.2
  · rw [textEditAdjustColRow_of_not_before edit first last before,
      textEditAdjustColRow_of_before edit last first behind]
  · have same : first = last := Prod.ext (by omega) (by omega)
    rw [same]

theorem replaceOrdered_dragged :
    replaceOrdered (dragged edit first last) = replaceOrdered (dragged edit last first) := by
  rw [replaceOrdered, replaceOrdered, if_pos (dragged_marked edit first last),
    if_pos (dragged_marked edit last first), textEditAdjustColRow_dragged]

/-- The keys that order the points do not depend on the direction. -/
theorem ordered_keys_dragged (clipBoard : Option Textframe) {c : Int}
    (key : c = enter ∨ c = backspace ∨ c = ctrlV) :
    rowsAndCursor (handleKeyboardTextEdit (dragged edit first last) clipBoard c) =
      rowsAndCursor (handleKeyboardTextEdit (dragged edit last first) clipBoard c) := by
  rcases key with rfl | rfl | rfl
  · rw [handleKeyboardTextEdit_enter, handleKeyboardTextEdit_enter, enterKey, enterKey,
      replaceOrdered_dragged]
  · rw [handleKeyboardTextEdit_backspace, handleKeyboardTextEdit_backspace, backspaceKey,
      backspaceKey, if_neg (dragged_marked edit first last),
      if_neg (dragged_marked edit last first), textEditAdjustColRow_dragged]
  · rw [handleKeyboardTextEdit_ctrlV, handleKeyboardTextEdit_ctrlV]
    have parent_eq : (dragged edit first last).parent = (dragged edit last first).parent := rfl
    rw [ctrlVKey.eq_def, ctrlVKey.eq_def, parent_eq, replaceOrdered_dragged]
    split <;> rfl

end

section

variable {edit : TextEdit} {first last : Nat × Nat} {startLine endLine : Row} {c : Int}

/-- The rows and the cursor after a byte is typed at a column of a row. -/
def typedAt (above : List Row) (row : Row) (col : Nat) (ch : UInt8) (below : List Row) :
    List Row × Int × Int :=
  (above ++ (row.take col ++ [ch] ++ row.drop col) :: below, (above.length : Int), (col : Int) + 1)

/-- A printable key types behind the first point in what the deletion leaves. -/
theorem printable_typedAt {rows above below : List Row} {row : Row}
    (clipBoard : Option Textframe) (low : 32 ≤ c) (high : c ≤ 126)
    (deleting : textframeDelete edit.text first.1 first.2 last.1 last.2 = some (deleted rows))
    (rows_eq : rows = above ++ row :: below) (row_eq : first.1 = above.length) :
    rowsAndCursor (handleKeyboardTextEdit (dragged edit first last) clipBoard c) =
      some (typedAt above row (cursorColumn row first.2) (UInt8.ofNat c.toNat) below) := by
  -- Once the selection is replaced the key finds none.
  obtain ⟨replaced, replacing, text_eq, noSelection⟩ : ∃ replaced,
      replaceUnordered (dragged edit first last) = some replaced ∧
        replaced.text = moveToPos (deleted rows) above.length first.2 ∧
        replaced.point2Col = -1 := by
    refine ⟨{ dragged edit first last with
      text := moveToPos (deleted rows) above.length first.2
      point2Row := -1
      point2Col := -1 }, ?_, rfl, rfl⟩
    rw [replaceUnordered, if_pos (dragged_marked edit first last), replaceSelection]
    simp only [dragged, deleting, bind_eq_bind, bind_some, ← row_eq]
  have again : handleKeyboardTextEdit (dragged edit first last) clipBoard c =
      handleKeyboardTextEdit replaced clipBoard c := by
    rw [handleKeyboardTextEdit_printable _ _ low high,
      handleKeyboardTextEdit_printable _ _ low high, printableKey, printableKey, replacing,
      replaceUnordered, if_neg (not_not_intro noSelection)]
  have located : Located (moveToPos (deleted rows) above.length first.2) above _ _ below :=
    Located.moveToPos_row rows_eq first.2
  rw [← text_eq, posColumn_of_nonneg row (Int.natCast_nonneg _)] at located
  obtain ⟨next, pressed, -, typed⟩ := printable_located noSelection clipBoard located low high
  rw [again, pressed, rowsAndCursor, map_some, typedAt, typed.data_eq, typed.row_eq,
    typed.col_eq, length_append, length_take_of_le (cursorColumn_le _ _)]
  rfl

theorem length_take_row {text : Textframe} {r : Nat} (bound : r < text.data.length) :
    r = (text.data.take r).length := by
  rw [length_take]
  omega

/-- A selection dragged forward, or inside of a row, is deleted. -/
theorem printable_forward (first last : Nat × Nat) (clipBoard : Option Textframe)
    (low : 32 ≤ c) (high : c ≤ 126) (rows_le : first.1 ≤ last.1)
    (readStart : edit.text.data[first.1]? = some startLine)
    (readEnd : edit.text.data[last.1]? = some endLine) {row : Row}
    (row_eq : row = joinedLine startLine endLine (startColumn startLine first.2)
      (endColumn endLine last.2)) :
    rowsAndCursor (handleKeyboardTextEdit (dragged edit first last) clipBoard c) =
      some (typedAt (edit.text.data.take first.1) row (cursorColumn row first.2)
        (UInt8.ofNat c.toNat) (edit.text.data.drop (last.1 + 1))) := by
  have bound := (List.getElem?_eq_some_iff.mp readStart).1
  refine printable_typedAt clipBoard low high
    (textframeDelete_of_lines rows_le readStart readEnd first.2 last.2) ?_ (length_take_row bound)
  rw [row_eq]

/-- A selection dragged to an earlier row is kept. -/
theorem printable_backward (first last : Nat × Nat) (clipBoard : Option Textframe)
    (low : 32 ≤ c) (high : c ≤ 126) (rows_lt : last.1 < first.1)
    (readStart : edit.text.data[first.1]? = some startLine) :
    rowsAndCursor (handleKeyboardTextEdit (dragged edit first last) clipBoard c) =
      some (typedAt (edit.text.data.take first.1) startLine (cursorColumn startLine first.2)
        (UInt8.ofNat c.toNat) (edit.text.data.drop (first.1 + 1))) := by
  obtain ⟨bound, startLine_eq⟩ := List.getElem?_eq_some_iff.mp readStart
  refine printable_typedAt clipBoard low high
    (textframeDelete_of_lt rows_lt bound first.2 last.2) ?_ (length_take_row bound)
  rw [← startLine_eq, ← drop_eq_getElem_cons bound, take_append_drop]

variable {col otherCol : Nat} {line : Row}

theorem typedAt_rows_length {above below : List Row} {row : Row} {ch : UInt8} :
    (typedAt above row col ch below).1.length = above.length + 1 + below.length := by
  rw [typedAt, length_append, length_cons]
  omega

theorem typedAt_injective {above below : List Row} {row other : Row} {ch : UInt8}
    (same : typedAt above row col ch below = typedAt above other otherCol ch below) :
    col = otherCol ∧ row.length = other.length := by
  simp only [typedAt, Prod.mk.injEq, append_cancel_left_eq, cons.injEq, true_and, and_true] at same
  have length := congrArg List.length same.1
  simp only [length_append, length_take, length_drop, length_cons, length_nil] at length
  omega

/-- Two positions of a row that are the ends of the same range in both
directions: both behind the row, or the same, or the two bytes of a Han
character that ends the row. -/
def SameEnds (line : Row) (col otherCol : Nat) : Prop :=
  clampColumn line col = clampColumn line otherCol ∨
    insideHan line (line.length - 1) = true ∧
      line.length ≤ min col otherCol + 2 ∧ max col otherCol < line.length

theorem SameEnds.symm (same : SameEnds line col otherCol) : SameEnds line otherCol col := by
  rcases same with clamped | ⟨inside, low, high⟩
  · exact .inl clamped.symm
  · exact .inr ⟨inside, by omega, by omega⟩

/-- The first byte of a Han character, seen from its second byte. -/
theorem first_byte_of_insideHan (inside : insideHan line (col + 1) = true) :
    insideHan line col = false ∧ startsHan line col = true ∧ startsHan line (col + 1) = false := by
  have notInside : insideHan line col = false := by
    by_contra insideFirst
    rw [Bool.not_eq_false] at insideFirst
    rw [insideHan_succ_of_inside insideFirst] at inside
    contradiction
  have han : isHanAt line col = true := by
    rw [insideHan_succ notInside, Bool.and_eq_true] at inside
    exact inside.1
  refine ⟨notInside, ?_, ?_⟩
  · rw [insideHan, han, Bool.true_and, decide_eq_false_iff_not] at notInside
    rw [startsHan, han, Bool.true_and, decide_eq_true_iff]
    omega
  · rw [insideHan, Bool.and_eq_true, decide_eq_true_iff] at inside
    rw [startsHan, decide_eq_false (by omega), Bool.and_false]

/-- From either of its bytes, the range of a Han character is that
character. -/
theorem columns_of_insideHan (inside : insideHan line (col + 1) = true) :
    startColumn line col = col ∧ startColumn line (col + 1 : Nat) = col ∧
      endColumn line col = col + 1 ∧ endColumn line (col + 1 : Nat) = col + 1 := by
  have bound := lt_length_of_insideHan inside
  obtain ⟨notInside, starts, notStarts⟩ := first_byte_of_insideHan inside
  have first : clampColumn line col = col := clampColumn_of_le (by omega)
  have second : clampColumn line (col + 1 : Nat) = col + 1 := clampColumn_of_le (by omega)
  refine ⟨?_, ?_, ?_, ?_⟩
  · rw [startColumn, first, notInside, if_neg Bool.false_ne_true]
  · rw [startColumn, second, inside, if_pos rfl, Nat.add_sub_cancel]
  · rw [endColumn, first, starts, if_pos rfl]
  · rw [endColumn, second, notStarts, if_neg Bool.false_ne_true]

theorem joinedLine_self_length (line : Row) {fromCol : Nat} (toCol : Nat)
    (fromCol_le : fromCol ≤ line.length) :
    (joinedLine line line fromCol toCol).length = fromCol + (line.length - (toCol + 1)) := by
  rw [joinedLine, length_append, length_take_of_le fromCol_le, length_take,
    length_drop, Nat.min_self]

/-- Where a Han character was deleted a boundary is left. -/
theorem cursorColumn_joinedLine_self (inside : insideHan line (col + 1) = true) (toCol : Nat) :
    cursorColumn (joinedLine line line col toCol) col = col := by
  have bound := lt_length_of_insideHan inside
  obtain ⟨-, starts, -⟩ := first_byte_of_insideHan inside
  rw [startsHan, Bool.and_eq_true, decide_eq_true_iff] at starts
  have length : (line.take col).length = col := length_take_of_le (by omega)
  have boundary : insideHan (joinedLine line line col toCol) col = false := by
    have even : ¬ markedSuffix isHan (line.take col) % 2 = 1 := by omega
    have cut := insideHan_append (line.take col)
      ((line.drop (toCol + 1)).take (line.length - (toCol + 1)))
    rw [length, decide_eq_false even, Bool.and_false] at cut
    exact cut
  have le : col ≤ (joinedLine line line col toCol).length := by
    rw [joinedLine_self_length line toCol (by omega)]
    omega
  rw [cursorColumn, clampColumn_of_le le, boundary, if_neg Bool.false_ne_true]

/-- Columns that are clamped to the same one give the same range and, in what is
left, the same cursor. -/
theorem sameEnds_of_clampColumn (clamped : clampColumn line col = clampColumn line otherCol)
    {row other : Row}
    (row_eq : row = joinedLine line line (startColumn line col) (endColumn line otherCol))
    (other_eq : other = joinedLine line line (startColumn line otherCol) (endColumn line col)) :
    row = other ∧ cursorColumn row col = cursorColumn other otherCol := by
  have same : row = other := by
    rw [row_eq, other_eq, startColumn, startColumn, endColumn, endColumn, clamped]
  refine ⟨same, ?_⟩
  rw [← same]
  by_cases inside : col < line.length
  · have col_eq : col = otherCol := by
      unfold clampColumn at clamped
      omega
    rw [col_eq]
  · -- Both columns are behind the row, and nothing is deleted.
    have length : row.length ≤ line.length := by
      rw [row_eq, joinedLine_self_length line _ (startColumn_le _ _)]
      have := startColumn_le line col
      have atEnd : clampColumn line otherCol = line.length := by
        rw [← clamped]
        unfold clampColumn
        omega
      have behind : line.length ≤ endColumn line otherCol := by
        rw [endColumn]
        split <;> omega
      omega
    have atEnd : clampColumn row col = clampColumn row otherCol := by
      unfold clampColumn at clamped ⊢
      omega
    rw [cursorColumn, cursorColumn, atEnd]

/-- Different columns delete ranges of the same length only as the two bytes of
a Han character. -/
theorem insideHan_of_length_eq (before : clampColumn line col < clampColumn line otherCol)
    (length : (joinedLine line line (startColumn line col) (endColumn line otherCol)).length =
      (joinedLine line line (startColumn line otherCol) (endColumn line col)).length) :
    otherCol = col + 1 ∧ insideHan line (col + 1) = true := by
  have col_eq : clampColumn line col = col := by
    unfold clampColumn at before ⊢
    omega
  have first : startColumn line col ≤ col := by
    unfold startColumn
    split <;> omega
  have behind : clampColumn line otherCol ≤ endColumn line otherCol := by
    unfold endColumn
    split <;> omega
  have close : endColumn line col ≤ col + 1 := by
    unfold endColumn
    split <;> omega
  rw [joinedLine_self_length line _ (startColumn_le _ _),
    joinedLine_self_length line _ (startColumn_le _ _)] at length
  cases inside : insideHan line (clampColumn line otherCol) with
  | false =>
    rw [startColumn.eq_def line otherCol, inside, if_neg Bool.false_ne_true] at length
    omega
  | true =>
    rw [startColumn.eq_def line otherCol, inside, if_pos rfl] at length
    have next : clampColumn line otherCol = col + 1 := by omega
    have bound := lt_length_of_insideHan inside
    refine ⟨?_, next ▸ inside⟩
    unfold clampColumn at next bound
    omega

/-- Two columns of a row, deleted in either order, leave the same text and
cursor exactly when they are the ends of the same range. -/
theorem typedAt_sameRow_iff {above below : List Row} {ch : UInt8} (ordered : col ≤ otherCol)
    {row other : Row}
    (row_eq : row = joinedLine line line (startColumn line col) (endColumn line otherCol))
    (other_eq : other = joinedLine line line (startColumn line otherCol) (endColumn line col)) :
    typedAt above row (cursorColumn row col) ch below =
        typedAt above other (cursorColumn other otherCol) ch below ↔
      SameEnds line col otherCol := by
  constructor
  · intro same
    obtain ⟨column, length⟩ := typedAt_injective same
    by_cases clamped : clampColumn line col = clampColumn line otherCol
    · exact .inl clamped
    have before : clampColumn line col < clampColumn line otherCol := by
      unfold clampColumn at clamped ⊢
      omega
    rw [row_eq, other_eq] at length
    obtain ⟨rfl, inside⟩ := insideHan_of_length_eq before length
    have bound := lt_length_of_insideHan inside
    obtain ⟨start, startOther, stop, stopOther⟩ := columns_of_insideHan inside
    rw [start] at row_eq
    rw [startOther, stop] at other_eq
    have low : min (col + 1) other.length ≤ cursorColumn other (col + 1 : Nat) := by
      refine le_cursorColumn other ?_
      unfold clampColumn
      omega
    have size : other.length = col + (line.length - (col + 1 + 1)) := by
      rw [other_eq, joinedLine_self_length line _ (by omega)]
    rw [← column, row_eq, cursorColumn_joinedLine_self inside] at low
    refine .inr ⟨?_, by omega, by omega⟩
    rw [show line.length - 1 = col + 1 by omega]
    exact inside
  · rintro (clamped | ⟨inside, low, high⟩)
    · obtain ⟨same, column⟩ := sameEnds_of_clampColumn clamped row_eq other_eq
      rw [column, same]
    rcases Nat.eq_or_lt_of_le ordered with rfl | before
    · obtain ⟨same, column⟩ := sameEnds_of_clampColumn rfl row_eq other_eq
      rw [same]
    -- The two columns are the last two of the row.
    obtain rfl : otherCol = col + 1 := by omega
    rw [show line.length - 1 = col + 1 by omega] at inside
    obtain ⟨start, startOther, stop, stopOther⟩ := columns_of_insideHan inside
    rw [start, stopOther] at row_eq
    rw [startOther, stop, ← row_eq] at other_eq
    have size : row.length = col := by
      rw [row_eq, joinedLine_self_length line _ (by omega)]
      omega
    have clamped : clampColumn row (col + 1 : Nat) = clampColumn row col := by
      unfold clampColumn
      omega
    rw [other_eq, cursorColumn, cursorColumn, clamped]

/-- In different rows the direction decides whether rows are lost. -/
theorem printable_rows_differ (first last : Nat × Nat) (clipBoard : Option Textframe)
    (low : 32 ≤ c) (high : c ≤ 126) (rows_lt : first.1 < last.1)
    (lastRow : last.1 < edit.text.data.length) :
    rowsAndCursor (handleKeyboardTextEdit (dragged edit first last) clipBoard c) ≠
      rowsAndCursor (handleKeyboardTextEdit (dragged edit last first) clipBoard c) := by
  have readStart := getElem?_eq_getElem (Nat.lt_trans rows_lt lastRow)
  have readEnd := getElem?_eq_getElem lastRow
  rw [printable_forward first last clipBoard low high (Nat.le_of_lt rows_lt) readStart readEnd rfl,
    printable_backward last first clipBoard low high rows_lt readEnd, ne_eq, some.injEq]
  intro same
  have length := congrArg (fun outcome => outcome.1.length) same
  simp only [typedAt_rows_length, length_take, length_drop] at length
  omega

theorem printable_sameRow_iff (clipBoard : Option Textframe) (low : 32 ≤ c) (high : c ≤ 126)
    {r col otherCol : Nat} (ordered : col ≤ otherCol)
    (read : edit.text.data[r]? = some startLine) :
    rowsAndCursor (handleKeyboardTextEdit (dragged edit (r, col) (r, otherCol)) clipBoard c) =
        rowsAndCursor (handleKeyboardTextEdit (dragged edit (r, otherCol) (r, col)) clipBoard c) ↔
      SameEnds startLine col otherCol := by
  have forward := printable_forward (r, col) (r, otherCol) clipBoard low high (Nat.le_refl r)
    read read rfl
  have backward := printable_forward (r, otherCol) (r, col) clipBoard low high (Nat.le_refl r)
    read read rfl
  rw [forward, backward, some.injEq]
  exact typedAt_sameRow_iff ordered rfl rfl

end

/-- A key that replaces a selection gives the same rows and cursor in both
directions of a drag, if and only if it is not a printable key or the two
positions are the ends of the same range. -/
theorem drag_direction_irrelevant_iff (edit : TextEdit) (first last : Nat × Nat)
    (firstRow : first.1 < edit.text.data.length) (lastRow : last.1 < edit.text.data.length)
    (clipBoard : Option Textframe) {c : Int} (key : ReplacesSelection c) :
    rowsAndCursor (handleKeyboardTextEdit (dragged edit first last) clipBoard c) =
        rowsAndCursor (handleKeyboardTextEdit (dragged edit last first) clipBoard c) ↔
      (32 ≤ c ∧ c ≤ 126 → first.1 = last.1 ∧
        SameEnds ((edit.text.data[first.1]?).getD []) first.2 last.2) := by
  obtain ⟨r, col⟩ := first
  obtain ⟨otherRow, otherCol⟩ := last
  by_cases printable : 32 ≤ c ∧ c ≤ 126
  · rw [forall_prop_of_true printable]
    rcases Nat.lt_trichotomy r otherRow with below | rfl | above
    · have differ := printable_rows_differ (r, col) (otherRow, otherCol) clipBoard printable.1
        printable.2 below lastRow
      exact iff_of_false differ fun both => Nat.ne_of_lt below both.1
    · have read := getElem?_eq_getElem firstRow
      rw [and_iff_right rfl, read, getD_some]
      rcases Nat.le_total col otherCol with ordered | ordered
      · exact printable_sameRow_iff clipBoard printable.1 printable.2 ordered read
      · rw [eq_comm, printable_sameRow_iff clipBoard printable.1 printable.2 ordered read]
        exact ⟨SameEnds.symm, SameEnds.symm⟩
    · have differ := printable_rows_differ (otherRow, otherCol) (r, col) clipBoard printable.1
        printable.2 above firstRow
      exact iff_of_false differ.symm fun both => Nat.ne_of_gt above both.1
  · have ordering : c = enter ∨ c = backspace ∨ c = ctrlV := by
      rcases key with isEnter | isBackspace | isPaste | isPrintable
      · exact .inl isEnter
      · exact .inr (.inl isBackspace)
      · exact .inr (.inr isPaste)
      · exact absurd isPrintable printable
    exact iff_of_true (ordered_keys_dragged edit (r, col) (otherRow, otherCol) clipBoard ordering)
      fun isPrintable => absurd isPrintable printable

theorem drag_direction_irrelevant_enter :
    rowsAndCursor (handleKeyboardTextEdit (dragged twoRows (0, 0) (1, 0)) none enter) =
      rowsAndCursor (handleKeyboardTextEdit (dragged twoRows (1, 0) (0, 0)) none enter) :=
  (drag_direction_irrelevant_iff twoRows (0, 0) (1, 0) (by decide) (by decide) none
    (.inl rfl)).mpr fun printable => absurd printable (by decide)

/-- The letter `x` typed over a selection from the second row back to the first
deletes nothing. -/
theorem drag_direction_matters :
    rowsAndCursor (handleKeyboardTextEdit (dragged twoRows (0, 0) (1, 0)) none 120) =
        some ([[120]], 0, 1) ∧
      rowsAndCursor (handleKeyboardTextEdit (dragged twoRows (1, 0) (0, 0)) none 120) =
        some ([[97, 98], [120, 99]], 1, 1) := by
  decide

end XEditor.Edit
