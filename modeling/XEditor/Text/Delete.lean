import XEditor.Text.Range
import Mathlib.Data.List.TakeDrop

/-!
# Deleting a selection

A selection names two positions of existing rows in document order.  The loop
of `textframe_delete` is evaluated once, for every pair of rows, and the
deletion of a selection is read off from that closed form.
-/

namespace XEditor.Text

open List Option Textframe

/-- Two positions in existing rows of a text, the first not behind the
second.  The columns are those the caller passes, before any alignment. -/
structure Selection (text : Textframe) where
  startRow : Nat
  startCol : Int
  endRow : Nat
  endCol : Int
  rows_le : startRow ≤ endRow
  endRow_lt : endRow < text.data.length
  cols_le : startRow = endRow → startCol ≤ endCol

namespace Selection

variable {text : Textframe} (selection : Selection text)

/-- The row the selection starts in. -/
def startLine : Row :=
  text.data.get ⟨selection.startRow,
    Nat.lt_of_le_of_lt selection.rows_le selection.endRow_lt⟩

/-- The row the selection ends in. -/
def endLine : Row :=
  text.data.get ⟨selection.endRow, selection.endRow_lt⟩

/-- The start column after `textframe_adjust_r_c`. -/
def fromCol : Nat :=
  (textframeAdjustRC text selection.startRow selection.startCol 0 (-1)).2.toNat

/-- The end column after `textframe_adjust_r_c`. -/
def toCol : Nat :=
  (textframeAdjustRC text selection.endRow selection.endCol 1 1).2.toNat

/-- The rows of the text without the selected range. -/
def removed : List Row :=
  text.data.take selection.startRow ++
    (selection.startLine.take selection.fromCol ++
      selection.endLine.drop (selection.toCol + 1)) ::
    text.data.drop (selection.endRow + 1)

theorem startRow_lt : selection.startRow < text.data.length :=
  Nat.lt_of_le_of_lt selection.rows_le selection.endRow_lt

theorem read_startLine : text.data[selection.startRow]? = some selection.startLine := by
  rw [getElem?_eq_getElem selection.startRow_lt]
  rfl

theorem read_endLine : text.data[selection.endRow]? = some selection.endLine := by
  rw [getElem?_eq_getElem selection.endRow_lt]
  rfl

theorem endLine_eq_startLine (sameRow : selection.startRow = selection.endRow) :
    selection.endLine = selection.startLine := by
  have read := selection.read_endLine
  rw [← sameRow, selection.read_startLine] at read
  exact (some.inj read).symm

theorem fromCol_eq : selection.fromCol = startColumn selection.startLine selection.startCol := by
  rw [fromCol, textframeAdjustRC_of_line selection.read_startLine, adjustColumn_start,
    Int.toNat_natCast]

theorem toCol_eq : selection.toCol = endColumn selection.endLine selection.endCol := by
  rw [toCol, textframeAdjustRC_of_line selection.read_endLine, adjustColumn_end, Int.toNat_natCast]

theorem fromCol_le : selection.fromCol ≤ selection.startLine.length := by
  rw [fromCol_eq]
  exact startColumn_le _ _

theorem fromCol_le_toCol (sameRow : selection.startRow = selection.endRow) :
    selection.fromCol ≤ selection.toCol := by
  rw [fromCol_eq, toCol_eq, selection.endLine_eq_startLine sameRow]
  exact startColumn_le_endColumn _ (selection.cols_le sameRow)

end Selection

/-! ## The loop over the rows -/

variable {fuel fromCol kept : Nat} {startLine endLine : Row}

section

variable {text : Textframe} {startRow endRow : Nat} {startCol endCol : Int}

/-- The row a deletion leaves where the range stood.  The right part is cut to
the length the source computes from the start row. -/
def joinedLine (startLine endLine : Row) (fromCol toCol : Nat) : Row :=
  startLine.take fromCol ++
    (endLine.drop (toCol + 1)).take (startLine.length - (toCol + 1))

/-- A row outside the range is copied. -/
theorem deleteLoop_copy {i : Nat} {line : Row} {rows : List Row} (read : text.data[i]? = some line)
    (outside : i < startRow ∨ endRow < i)
    (rest : deleteLoop text startRow startCol endRow endCol fuel ((i + 1 : Nat) : Int) =
      some rows) :
    deleteLoop text startRow startCol endRow endCol (fuel + 1) i = some (line :: rows) := by
  have inside : (i : Int) < text.maxrow := Int.ofNat_lt.mpr (List.getElem?_eq_some_iff.mp read).1
  have kept : ¬ ((i : Int) > startRow ∧ (i : Int) < endRow) := by omega
  have copied : (i : Int) < startRow ∨ (i : Int) > endRow := by omega
  rw [Int.natCast_add, Int.natCast_one] at rest
  rw [deleteLoop, if_pos inside, if_neg kept, line?_natCast, read]
  simp only [bind_eq_bind, bind_some, if_pos copied, rest, substr_zero_length]

/-- From an index on at which no row is in the range any more, every row is
copied. -/
theorem deleteLoop_copies {i : Nat} (outside : ∀ k, i ≤ k → k < startRow ∨ endRow < k)
    (enough : text.data.length ≤ fuel + i) :
    deleteLoop text startRow startCol endRow endCol fuel i = some (text.data.drop i) := by
  have done (past : ¬ i < text.data.length) : ¬ (i : Int) < text.maxrow := mt Int.ofNat_lt.mp past
  induction fuel generalizing i with
  | zero => rw [deleteLoop, if_neg (done (by omega)), drop_eq_nil_of_le (by omega)]
  | succ fuel ih =>
    by_cases inside : i < text.data.length
    · rw [drop_eq_getElem_cons inside]
      refine deleteLoop_copy (getElem?_eq_getElem inside) (outside i (Nat.le_refl i)) ?_
      exact ih (fun k later => outside k (by omega)) (by omega) (mt Int.ofNat_lt.mp)
    · rw [deleteLoop, if_neg (done inside), drop_eq_nil_of_le (by omega)]

/-- Before the range every row is copied. -/
theorem deleteLoop_before {rows : List Row} (startRow_le : startRow ≤ text.data.length)
    (fromStart : deleteLoop text startRow startCol endRow endCol fuel startRow = some rows)
    {skipped : Nat} (skipped_le : skipped ≤ startRow) :
    deleteLoop text startRow startCol endRow endCol (fuel + skipped)
        ((startRow - skipped : Nat) : Int) =
      some ((text.data.take startRow).drop (startRow - skipped) ++ rows) := by
  induction skipped with
  | zero => simp [fromStart]
  | succ skipped ih =>
    have next : startRow - (skipped + 1) + 1 = startRow - skipped := by omega
    have inside : startRow - (skipped + 1) < (text.data.take startRow).length := by
      rw [length_take]
      omega
    rw [← next] at ih
    rw [← Nat.add_assoc, drop_eq_getElem_cons inside, getElem_take]
    exact deleteLoop_copy (getElem?_eq_getElem _) (.inl (by omega)) (ih (by omega))

/-- The iteration at the start row joins what stands in front of the range with
what it keeps of the end row, and moves on behind the range. -/
theorem deleteLoop_at_start (rows_le : startRow ≤ endRow)
    (readStart : text.data[startRow]? = some startLine)
    (readEnd : text.data[endRow]? = some endLine) (kept_eq : endCol + 1 = kept)
    (enough : text.data.length ≤ fuel + (endRow + 1)) :
    deleteLoop text startRow fromCol endRow endCol (fuel + 1) startRow =
      some ((startLine.take fromCol ++ (endLine.drop kept).take (startLine.length - kept)) ::
        text.data.drop (endRow + 1)) := by
  have inside := (List.getElem?_eq_some_iff.mp readStart).1
  have insideInt : (startRow : Int) < text.maxrow := Int.ofNat_lt.mpr inside
  have notBetween : ¬ ((startRow : Int) > startRow ∧ (startRow : Int) < endRow) := by omega
  have notCopied : ¬ ((startRow : Int) < startRow ∨ (startRow : Int) > endRow) := by omega
  have outside : ∀ k, endRow + 1 ≤ k → k < startRow ∨ endRow < k := fun k later => by omega
  have rest : deleteLoop text startRow fromCol endRow endCol fuel ((endRow + 1 : Nat) : Int) =
      some (text.data.drop (endRow + 1)) := deleteLoop_copies outside enough
  rw [Int.natCast_add, Int.natCast_one] at rest
  have left := substr_eq startLine 0 fromCol
  have right := substr_eq endLine kept (startLine.length - endCol - 1)
  rw [Int.natCast_zero, Int.toNat_natCast, drop_zero] at left
  rw [show ((startLine.length : Int) - endCol - 1).toNat = startLine.length - kept by omega,
    ← kept_eq] at right
  rw [deleteLoop, if_pos insideInt, if_neg notBetween, line?_natCast, readStart,
    line?_natCast, readEnd]
  simp only [bind_eq_bind, bind_some, if_neg notCopied, rest, left, right, strcat_length]

/-- The whole loop on an ordered pair of existing rows. -/
theorem deleteLoop_eq (rows_le : startRow ≤ endRow)
    (readStart : text.data[startRow]? = some startLine)
    (readEnd : text.data[endRow]? = some endLine) (kept_eq : endCol + 1 = kept) :
    deleteLoop text startRow fromCol endRow endCol text.data.length 0 =
      some (text.data.take startRow ++
        (startLine.take fromCol ++ (endLine.drop kept).take (startLine.length - kept)) ::
          text.data.drop (endRow + 1)) := by
  have startBound := (List.getElem?_eq_some_iff.mp readStart).1
  have atStart : deleteLoop text startRow fromCol endRow endCol
      (text.data.length - startRow - 1 + 1) startRow =
      some ((startLine.take fromCol ++ (endLine.drop kept).take (startLine.length - kept)) ::
        text.data.drop (endRow + 1)) :=
    deleteLoop_at_start rows_le readStart readEnd kept_eq (by omega)
  have whole := deleteLoop_before (Nat.le_of_lt startBound) atStart (Nat.le_refl startRow)
  rw [show text.data.length - startRow - 1 + 1 + startRow = text.data.length by omega,
    Nat.sub_self, drop_zero, Int.natCast_zero] at whole
  exact whole

/-- With the end row before the start row the loop copies the text. -/
theorem deleteLoop_eq_of_lt (rows_lt : endRow < startRow) :
    deleteLoop text startRow startCol endRow endCol text.data.length 0 = some text.data := by
  have whole : deleteLoop text startRow startCol endRow endCol text.data.length ((0 : Nat) : Int) =
      some (text.data.drop 0) := deleteLoop_copies (fun k _ => by omega) (by omega)
  exact whole

end

/-! ## Deleting a selection -/

/-- What `textframe_delete` makes of the rows it returns. -/
def deleted (rows : List Row) : Textframe where
  data := rows
  cursorRow := 0
  cursorCol := 0
  maxrowCapacity := rows.length

@[simp]
theorem deleted_data (rows : List Row) : (deleted rows).data = rows :=
  rfl

variable {text : Textframe}

/-- A deletion in existing rows, with any two columns. -/
theorem textframeDelete_of_lines {startRow endRow : Nat} (rows_le : startRow ≤ endRow)
    (readStart : text.data[startRow]? = some startLine)
    (readEnd : text.data[endRow]? = some endLine) (startCol endCol : Int) :
    textframeDelete text startRow startCol endRow endCol =
      some (deleted (text.data.take startRow ++
        joinedLine startLine endLine (startColumn startLine startCol)
          (endColumn endLine endCol) :: text.data.drop (endRow + 1))) := by
  have endRow_in : ¬ (endRow : Int) ≥ text.maxrow := by
    have := (List.getElem?_eq_some_iff.mp readEnd).1
    simp only [maxrow]
    omega
  simp only [textframeDelete, textframeAdjustRC_of_line readStart,
    textframeAdjustRC_of_line readEnd, adjustColumn_start, adjustColumn_end,
    if_neg (natCast_not_neg _), if_neg endRow_in,
    deleteLoop_eq rows_le readStart readEnd (Int.natCast_succ _).symm, bind_eq_bind,
    bind_some, deleted, joinedLine]

/-- With the end row before the start row nothing is deleted. -/
theorem textframeDelete_of_lt {startRow endRow : Nat} (rows_lt : endRow < startRow)
    (startRow_lt : startRow < text.data.length) (startCol endCol : Int) :
    textframeDelete text startRow startCol endRow endCol = some (deleted text.data) := by
  have readStart := getElem?_eq_getElem startRow_lt
  have readEnd := getElem?_eq_getElem (Nat.lt_trans rows_lt startRow_lt)
  have endRow_in : ¬ (endRow : Int) ≥ text.maxrow := by
    simp only [maxrow]
    omega
  simp only [textframeDelete, textframeAdjustRC_of_line readStart,
    textframeAdjustRC_of_line readEnd, if_neg (natCast_not_neg _), if_neg endRow_in,
    deleteLoop_eq_of_lt rows_lt, bind_eq_bind, bind_some, deleted]

section

variable (nonempty : text.data ≠ []) {startRow endRow : Int}
include nonempty

/-- Nor is anything deleted from a negative row on. -/
theorem textframeDelete_of_neg (negative : startRow < 0) (nonneg : 0 ≤ endRow)
    (startCol endCol : Int) :
    textframeDelete text startRow startCol endRow endCol = some (deleted text.data) := by
  have endRow_lt := clampRow_lt nonempty endRow
  have readEnd := getElem?_eq_getElem endRow_lt
  have startRow_eq : text.maxrow + 1 = ((text.data.length + 1 : Nat) : Int) := rfl
  have endRow_in : ¬ (clampRow text endRow : Int) ≥ text.maxrow := by
    omega
  have rows_lt : clampRow text endRow < text.data.length + 1 := by omega
  simp only [textframeDelete, textframeAdjustRC_of_neg text negative, startRow_eq,
    textframeAdjustRC_clampRow nonempty nonneg, textframeAdjustRC_of_line readEnd,
    if_neg (natCast_not_neg _), if_neg endRow_in, deleteLoop_eq_of_lt rows_lt,
    bind_eq_bind, bind_some, deleted]

/-- Rows behind the last one count as the last one. -/
theorem textframeDelete_clampRow (startNonneg : 0 ≤ startRow) (nonneg : 0 ≤ endRow)
    (startCol endCol : Int) :
    textframeDelete text startRow startCol endRow endCol =
      textframeDelete text (clampRow text startRow) startCol (clampRow text endRow) endCol := by
  simp only [textframeDelete, textframeAdjustRC_clampRow nonempty nonneg,
    textframeAdjustRC_clampRow nonempty startNonneg]

/-- What `textframe_delete` returns for every pair of positions whose second row
is not negative. -/
theorem textframeDelete_cases (nonneg : 0 ≤ endRow) (startCol endCol : Int) :
    textframeDelete text startRow startCol endRow endCol = some (deleted text.data) ∨
    ∃ startLine endLine, 0 ≤ startRow ∧ clampRow text startRow ≤ clampRow text endRow ∧
      text.data[clampRow text startRow]? = some startLine ∧
      text.data[clampRow text endRow]? = some endLine ∧
      textframeDelete text startRow startCol endRow endCol =
        some (deleted (text.data.take (clampRow text startRow) ++
          joinedLine startLine endLine (startColumn startLine startCol)
            (endColumn endLine endCol) :: text.data.drop (clampRow text endRow + 1))) := by
  by_cases negative : startRow < 0
  · exact .inl (textframeDelete_of_neg nonempty negative nonneg startCol endCol)
  have startNonneg : 0 ≤ startRow := by omega
  rw [textframeDelete_clampRow nonempty startNonneg nonneg]
  by_cases rows_le : clampRow text startRow ≤ clampRow text endRow
  · have readStart := getElem?_eq_getElem (clampRow_lt nonempty startRow)
    have readEnd := getElem?_eq_getElem (clampRow_lt nonempty endRow)
    exact .inr ⟨_, _, startNonneg, rows_le, readStart, readEnd,
      textframeDelete_of_lines rows_le readStart readEnd startCol endCol⟩
  · exact .inl (textframeDelete_of_lt (by omega) (clampRow_lt nonempty startRow) startCol endCol)

end

/-- What `textframe_delete` returns on every selection. -/
theorem textframeDelete_eq (selection : Selection text) :
    textframeDelete text selection.startRow selection.startCol selection.endRow
        selection.endCol =
      some (deleted (text.data.take selection.startRow ++
        joinedLine selection.startLine selection.endLine selection.fromCol selection.toCol ::
        text.data.drop (selection.endRow + 1))) := by
  rw [textframeDelete_of_lines selection.rows_le selection.read_startLine selection.read_endLine,
    selection.fromCol_eq, selection.toCol_eq]

/-- The right part of the joined row is complete exactly when the end row is no
longer than the start row or nothing of it lies behind the range. -/
theorem joinedLine_complete_iff (startLine endLine : Row) (fromCol toCol : Nat) :
    joinedLine startLine endLine fromCol toCol =
        startLine.take fromCol ++ endLine.drop (toCol + 1) ↔
      endLine.length ≤ startLine.length ∨ endLine.length ≤ toCol + 1 := by
  rw [joinedLine, append_cancel_left_eq, take_eq_self_iff, length_drop]
  omega

/-- `textframe_delete` removes exactly the selected range if and only if the
end row is no longer than the start row or ends with the selection. -/
theorem textframeDelete_removes_selection_iff {text : Textframe} (selection : Selection text) :
    (textframeDelete text selection.startRow selection.startCol selection.endRow
        selection.endCol).map Textframe.data = some selection.removed ↔
      selection.endLine.length ≤ selection.startLine.length ∨
        selection.endLine.length ≤ selection.toCol + 1 := by
  rw [textframeDelete_eq selection, map_some, some.injEq, deleted_data,
    Selection.removed, append_cancel_left_eq, cons.injEq, and_iff_left rfl]
  exact joinedLine_complete_iff _ _ _ _

/-- The rows `a` and `bcd`.  Deleting from the `a` through the `b` loses the
tail `cd` of the longer last row. -/
def shortFirstRow : Textframe where
  data := [[97], [98, 99, 100]]
  cursorRow := 0
  cursorCol := 0
  maxrowCapacity := 2

/-- The selection from the `a` through the `b` of `shortFirstRow`. -/
def shortFirstRowSelection : Selection shortFirstRow where
  startRow := 0
  startCol := 0
  endRow := 1
  endCol := 0
  rows_le := by decide
  endRow_lt := by decide
  cols_le := by decide

theorem textframeDelete_loses_tail :
    (textframeDelete shortFirstRow shortFirstRowSelection.startRow
        shortFirstRowSelection.startCol shortFirstRowSelection.endRow
        shortFirstRowSelection.endCol).map Textframe.data ≠
      some shortFirstRowSelection.removed := by
  decide

end XEditor.Text
