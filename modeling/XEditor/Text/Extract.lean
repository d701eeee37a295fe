import XEditor.Text.Delete
import XEditor.Lib.Lines

/-!
# Extracting a selection

The rows `textframe_extract` copies out of a text.  A selection that ends
before the end of its last row is copied as it stands.  One that reaches the
end of its last row is copied with the line break behind it, for which the
source reads one row further.
-/

namespace XEditor.Text

open List Option Lines Textframe Selection

/-! ## The copying loop -/

section

variable {text : Textframe} {startLen endCol endLen : Int}

/-- Length copied from the last row of the result. -/
def lastLen (endCol endLen : Int) : Int :=
  if endCol ≥ endLen then 0 else endCol + 1

/-- Length copied from the row at hand, given the rows still in front of the
last one. -/
def nextLen (endCol endLen : Int) : List Row → Int
  | [] => lastLen endCol endLen
  | line :: _ => line.length

variable {rest middle : List Row}

section

variable {lines : List Row} {r : Nat} {line : Row} (dropped : lines.drop r = line :: rest)
include dropped

theorem getElem?_of_drop_eq : lines[r]? = some line := by
  rw [← head?_drop, dropped, head?_cons]

theorem drop_succ_of_drop_eq : lines.drop (r + 1) = rest := by
  rw [← tail_drop, dropped, tail_cons]

end

/-- The length the loop body prepares for the next iteration. -/
theorem extractNextLen_eq {i r : Nat} {last : Row}
    (below : text.data.drop r = middle ++ last :: rest) :
    extractNextLen text endCol endLen (i + middle.length + 2 : Nat) i r =
      some (nextLen endCol endLen middle) := by
  unfold extractNextLen
  cases middle with
  | nil =>
    have notBefore : ¬ (i : Int) < (i + ([] : List Row).length + 2 : Nat) - 2 := by simp
    have atLast : (i : Int) = (i + ([] : List Row).length + 2 : Nat) - 2 := by simp
    rw [if_neg notBefore, nextLen, lastLen]
    by_cases reaches : endCol ≥ endLen
    · rw [if_pos ⟨reaches, atLast⟩, if_pos reaches]
    · rw [if_neg (fun both => reaches both.1), if_neg reaches]
  | cons next middle =>
    have before : (i : Int) < (i + (next :: middle).length + 2 : Nat) - 2 := by
      simp only [length_cons]
      omega
    rw [if_pos before, line?_natCast, getElem?_of_drop_eq below]
    rfl

/-- All iterations after the first copy whole rows, except for the last one. -/
theorem extractLoop_tail {last : Row} {i r : Nat} (later : 0 < i)
    (below : text.data.drop r = middle ++ last :: rest) :
    extractLoop text startLen endCol endLen (i + middle.length + 1 : Nat) (middle.length + 1)
        i r 0 (nextLen endCol endLen middle) =
      some (middle ++ [substr last 0 (lastLen endCol endLen)]) := by
  induction middle generalizing i r with
  | nil =>
    have notFirst : ¬ ((i : Int) = 0 ∧ (0 : Int) > startLen) := by omega
    have notBefore : ¬ (i : Int) < (i + 0 + 1 : Nat) - 2 := by omega
    have notLast : ¬ (endCol ≥ endLen ∧ (i : Int) = (i + 0 + 1 : Nat) - 2) := by omega
    have next : extractNextLen text endCol endLen (i + 0 + 1 : Nat) i (r + 1) =
        some (endCol + 1) := by
      rw [extractNextLen, if_neg notBefore, if_neg notLast]
    rw [length_nil, extractLoop, extractEnter, if_neg notFirst]
    simp only [bind_eq_bind, bind_some, line?_natCast,
      getElem?_of_drop_eq below, next, extractLoop, nextLen, nil_append]
  | cons line middle ih =>
    have notFirst : ¬ ((i : Int) = 0 ∧ (0 : Int) > startLen) := by omega
    have dropped := drop_succ_of_drop_eq below
    have next : extractNextLen text endCol endLen (i + middle.length + 2 : Nat) i
        ((r + 1 : Nat) : Int) = some (nextLen endCol endLen middle) :=
      extractNextLen_eq dropped
    have tail := ih (i := i + 1) (r := r + 1) (by omega) dropped
    rw [show i + 1 + middle.length + 1 = i + middle.length + 2 by omega,
      Int.natCast_add i 1, Int.natCast_add r 1, Int.natCast_one] at tail
    rw [Int.natCast_add r 1, Int.natCast_one] at next
    rw [length_cons, show i + (middle.length + 1) + 1 = i + middle.length + 2 by omega,
      extractLoop, extractEnter, if_neg notFirst]
    simp only [bind_eq_bind, bind_some, line?_natCast,
      getElem?_of_drop_eq below, next, tail, cons_append]
    rw [nextLen, substr_zero_length]

/-- The loop on a result of at least two rows. -/
theorem extractLoop_first {startRow fromCol : Nat} {lineLen : Int} {startLine : Row} {last : Row}
    (read : text.data[startRow]? = some startLine) (fromCol_le : (fromCol : Int) ≤ startLen)
    (below : text.data.drop (startRow + 1) = middle ++ last :: rest) :
    extractLoop text startLen endCol endLen (middle.length + 2 : Nat) (middle.length + 2)
        0 startRow fromCol lineLen =
      some (substr startLine fromCol lineLen ::
        (middle ++ [substr last 0 (lastLen endCol endLen)])) := by
  have notPast : ¬ ((0 : Int) = 0 ∧ (fromCol : Int) > startLen) := by omega
  have next : extractNextLen text endCol endLen (0 + middle.length + 2 : Nat) (0 : Nat)
      ((startRow + 1 : Nat) : Int) = some (nextLen endCol endLen middle) :=
    extractNextLen_eq below
  have tail : extractLoop text startLen endCol endLen (1 + middle.length + 1 : Nat)
      (middle.length + 1) (1 : Nat) ((startRow + 1 : Nat) : Int) 0
        (nextLen endCol endLen middle) =
      some (middle ++ [substr last 0 (lastLen endCol endLen)]) :=
    extractLoop_tail Nat.one_pos below
  rw [show 1 + middle.length + 1 = middle.length + 2 by omega, Int.natCast_add startRow 1,
    Int.natCast_one] at tail
  rw [Nat.zero_add, Int.natCast_zero, Int.natCast_add startRow 1, Int.natCast_one] at next
  rw [extractLoop, extractEnter, if_neg notPast]
  simp only [bind_eq_bind, bind_some, line?_natCast, read, next, Int.zero_add, tail]

/-- The loop copies as many rows as it is asked for. -/
theorem extractLoop_length {maxRow : Int} {left : Nat} {i startRow startCol lineLen : Int}
    {rows : List Row}
    (copied : extractLoop text startLen endCol endLen maxRow left i startRow startCol lineLen =
      some rows) :
    rows.length = left := by
  induction left generalizing i startRow startCol lineLen rows with
  | zero =>
    rw [extractLoop, some.injEq] at copied
    rw [← copied, length_nil]
  | succ left ih =>
    simp only [extractLoop, bind_eq_bind, bind_eq_some_iff, some.injEq] at copied
    obtain ⟨position, -, line, -, next, -, tail, loop, rfl⟩ := copied
    rw [length_cons, ih loop]

/-- Asked for more rows than there are, the loop reads past the row array. -/
theorem extractLoop_eq_none {maxRow startCol lineLen : Int} {left i r : Nat}
    (notPast : ¬ ((i : Int) = 0 ∧ startCol > startLen))
    (inside : r ≤ text.data.length) (short : text.data.length < r + left) :
    extractLoop text startLen endCol endLen maxRow left i r startCol lineLen = none := by
  induction left generalizing i r startCol lineLen with
  | zero => omega
  | succ left ih =>
    rw [extractLoop, extractEnter, if_neg notPast]
    simp only [bind_eq_bind, bind_some, line?_natCast]
    by_cases last : r = text.data.length
    · rw [last, getElem?_eq_none (Nat.le_refl _), bind_none]
    rw [getElem?_eq_getElem (by omega), bind_some]
    cases extractNextLen text endCol endLen maxRow i (r + 1) with
    | none => rfl
    | some next =>
      have rest : extractLoop text startLen endCol endLen maxRow left ((i + 1 : Nat) : Int)
          ((r + 1 : Nat) : Int) 0 next = none :=
        ih (by omega) (by omega) (by omega)
      rw [Int.natCast_add, Int.natCast_add, Int.natCast_one] at rest
      rw [bind_some, rest, bind_none]

end

/-! ## The three parts of a text around a selection -/

namespace Selection

variable {text : Textframe} (selection : Selection text)

/-- The text in front of the selection. -/
def before : List Row :=
  text.data.take selection.startRow ++ [selection.startLine.take selection.fromCol]

/-- Rows strictly between the two ends of the selection. -/
def middle : List Row :=
  (text.data.drop (selection.startRow + 1)).take (selection.endRow - selection.startRow - 1)

/-- The selected text. -/
def selected : List Row :=
  if selection.startRow = selection.endRow then
    [(selection.startLine.drop selection.fromCol).take
      (selection.toCol + 1 - selection.fromCol)]
  else
    selection.startLine.drop selection.fromCol ::
      (selection.middle ++ [selection.endLine.take (selection.toCol + 1)])

/-- The text behind the selection. -/
def behind : List Row :=
  selection.endLine.drop (selection.toCol + 1) :: text.data.drop (selection.endRow + 1)

theorem selected_ne_nil : selection.selected ≠ [] := by
  unfold selected
  split <;> simp

/-- The rows below the start row, split at the end row. -/
theorem drop_startRow (rows_lt : selection.startRow < selection.endRow) :
    text.data.drop (selection.startRow + 1) =
      selection.middle ++ selection.endLine :: text.data.drop (selection.endRow + 1) := by
  have whole := take_append_drop (selection.endRow - selection.startRow - 1)
    (text.data.drop (selection.startRow + 1))
  rw [drop_drop, show selection.startRow + 1 +
    (selection.endRow - selection.startRow - 1) = selection.endRow by omega,
    drop_eq_getElem_cons selection.endRow_lt] at whole
  exact whole.symm

theorem middle_length (rows_lt : selection.startRow < selection.endRow) :
    selection.middle.length = selection.endRow - selection.startRow - 1 := by
  have := selection.endRow_lt
  rw [middle, length_take, length_drop]
  omega

/-- A text is put together from the three parts around a selection. -/
theorem data_eq_glue :
    text.data = glue (glue selection.before selection.selected) selection.behind := by
  have rows := take_append_drop selection.startRow text.data
  rw [drop_eq_getElem_cons selection.startRow_lt] at rows
  by_cases sameRow : selection.startRow = selection.endRow
  · have line_eq := selection.endLine_eq_startLine sameRow
    have cols_le := selection.fromCol_le_toCol sameRow
    have line : selection.startLine.take selection.fromCol ++
        ((selection.startLine.drop selection.fromCol).take
          (selection.toCol + 1 - selection.fromCol) ++
        selection.startLine.drop (selection.toCol + 1)) = selection.startLine := by
      rw [show selection.startLine.drop (selection.toCol + 1) =
          (selection.startLine.drop selection.fromCol).drop
            (selection.toCol + 1 - selection.fromCol) by
        rw [drop_drop]
        congr 1
        omega]
      rw [take_append_drop, take_append_drop]
    rw [before, selected, if_pos sameRow, glue_concat_singleton, behind, glue_concat_cons,
      line_eq, append_assoc, line, ← sameRow]
    exact rows.symm
  · have rows_lt := Nat.lt_of_le_of_ne selection.rows_le sameRow
    rw [before, selected, if_neg sameRow, glue_concat_cons, ← cons_append,
      ← append_assoc, behind, glue_concat_cons, take_append_drop,
      take_append_drop, append_assoc, cons_append,
      ← selection.drop_startRow rows_lt]
    exact rows.symm

end Selection

/-! ## What is extracted -/

section

variable {text : Textframe} (selection : Selection text)

/-- The number of rows copied between existing rows. -/
def extractedRows (startRow endRow : Nat) (endLine : Row) (toCol : Nat) : Nat :=
  endRow - startRow + 1 + if toCol < endLine.length then 0 else 1

/-- The number of rows `textframe_extract` announces. -/
def Selection.extractRows : Nat :=
  extractedRows selection.startRow selection.endRow selection.endLine selection.toCol

/-- The loop of `textframe_extract` between existing rows and aligned columns. -/
def copyLoop (text : Textframe) (startRow endRow : Nat) (startLine endLine : Row)
    (fromCol toCol : Nat) : Option (List Row) :=
  extractLoop text startLine.length toCol endLine.length
    (extractedRows startRow endRow endLine toCol) (extractedRows startRow endRow endLine toCol) 0
    startRow fromCol
    (if startRow = endRow then (toCol : Int) - fromCol + 1 else startLine.length - fromCol)

/-- The copied rows as a text. -/
def copiedText (rows : List Row) (maxRow : Nat) : Textframe where
  data := rows
  cursorRow := 0
  cursorCol := 0
  maxrowCapacity := maxRow

/-- What `textframe_extract` does between two existing rows, from an aligned
start column to whatever its end column is by then. -/
def extractRange (text : Textframe) (startRow endRow : Nat) (startLine endLine : Row)
    (fromCol : Nat) (endCol : Int) : Option Textframe :=
  let maxRow : Int := (endRow : Int) - startRow + 1 + if endCol ≥ endLine.length then 1 else 0
  if maxRow ≤ 0 then some { data := [], cursorRow := 0, cursorCol := 0, maxrowCapacity := 0 }
  else
    (extractLoop text startLine.length endCol endLine.length maxRow maxRow.toNat 0 startRow fromCol
      (if startRow = endRow then endCol - fromCol + 1 else startLine.length - fromCol)).map
        fun rows => { data := rows, cursorRow := 0, cursorCol := 0, maxrowCapacity := maxRow }

section

variable {startRow endRow fromCol : Nat} {startLine endLine : Row} {startCol endCol : Int}

theorem extractRange_of_stop (readStart : text.data[startRow]? = some startLine)
    (readEnd : text.data[endRow]? = some endLine) (fromCol_le : fromCol ≤ startLine.length)
    (start_eq : textframeAdjustRC text startRow startCol 0 (-1) =
      ((startRow : Int), (fromCol : Int)))
    {stop : Int × Int} {stopRow stopCol : Int}
    (stop_eq : textframeAdjustRC text stopRow stopCol 1 1 = stop)
    (row_eq : (if stop.1 < 0 ∨ stop.1 ≥ text.maxrow then text.maxrow - 1 else stop.1) = endRow) :
    textframeExtract text startRow startCol stopRow stopCol =
      extractRange text startRow endRow startLine endLine fromCol stop.2 := by
  have notPast : ¬ (fromCol : Int) > startLine.length := by omega
  have sameRow_iff : (startRow : Int) = endRow ↔ startRow = endRow := by omega
  have rows : (if stop.2 ≥ endLine.length then (endRow : Int) - startRow + 1 + 1
      else (endRow : Int) - startRow + 1) =
        (endRow : Int) - startRow + 1 + if stop.2 ≥ endLine.length then 1 else 0 := by
    split <;> omega
  simp only [textframeExtract, start_eq, stop_eq, row_eq, if_neg (natCast_not_neg _),
    line?_natCast, readStart, readEnd, bind_eq_bind, bind_some,
    if_neg notPast, rows, sameRow_iff, extractRange, map_eq_bind]
  rfl

/-- Between two existing rows the end column is aligned. -/
theorem textframeExtract_eq_range (readStart : text.data[startRow]? = some startLine)
    (readEnd : text.data[endRow]? = some endLine) (startCol endCol : Int) :
    textframeExtract text startRow startCol endRow endCol =
      extractRange text startRow endRow startLine endLine (startColumn startLine startCol)
        (endColumn endLine endCol) := by
  have endRow_lt := (List.getElem?_eq_some_iff.mp readEnd).1
  have start_eq := textframeAdjustRC_of_line readStart startCol 0 (-1)
  rw [adjustColumn_start] at start_eq
  have stop_eq := textframeAdjustRC_of_line readEnd endCol 1 1
  rw [adjustColumn_end] at stop_eq
  refine extractRange_of_stop readStart readEnd (startColumn_le _ _) start_eq stop_eq ?_
  rw [if_neg]
  simp only [maxrow]
  omega

/-- Between existing rows in order `textframe_extract` is its loop. -/
theorem textframeExtract_of_lines (rows_le : startRow ≤ endRow)
    (readStart : text.data[startRow]? = some startLine)
    (readEnd : text.data[endRow]? = some endLine) (startCol endCol : Int) :
    textframeExtract text startRow startCol endRow endCol =
      (copyLoop text startRow endRow startLine endLine (startColumn startLine startCol)
        (endColumn endLine endCol)).map
          (copiedText · (extractedRows startRow endRow endLine (endColumn endLine endCol))) := by
  have count : (endRow : Int) - startRow + 1 +
      (if (endColumn endLine endCol : Int) ≥ endLine.length then 1 else 0) =
        extractedRows startRow endRow endLine (endColumn endLine endCol) := by
    unfold extractedRows
    split_ifs <;> omega
  rw [textframeExtract_eq_range readStart readEnd, extractRange, count, if_neg (by omega),
    Int.toNat_natCast]
  rfl

end

/-- On a selection `textframe_extract` is its loop. -/
theorem textframeExtract_eq_loop :
    textframeExtract text selection.startRow selection.startCol selection.endRow
        selection.endCol =
      (extractLoop text selection.startLine.length selection.toCol selection.endLine.length
        selection.extractRows selection.extractRows 0 selection.startRow selection.fromCol
        (if selection.startRow = selection.endRow then
          (selection.toCol : Int) - selection.fromCol + 1
        else selection.startLine.length - selection.fromCol)).map
          (copiedText · selection.extractRows) := by
  rw [textframeExtract_of_lines selection.rows_le selection.read_startLine selection.read_endLine,
    extractRows, selection.fromCol_eq, selection.toCol_eq]
  rfl

/-- A copy from a negative row on reads outside the text. -/
theorem textframeExtract_of_neg {startRow : Int} (negative : startRow < 0)
    (startCol endRow endCol : Int) :
    textframeExtract text startRow startCol endRow endCol = none := by
  have notNegative : ¬ text.maxrow + 1 < 0 := by
    rw [maxrow]
    omega
  simp only [textframeExtract, textframeAdjustRC_of_neg text negative, if_neg notNegative,
    text.line?_maxrow_succ, bind_eq_bind, bind_none]

/-- Rows behind the last one count as the last one. -/
theorem textframeExtract_clampRow (nonempty : text.data ≠ []) {startRow endRow : Int}
    (startNonneg : 0 ≤ startRow) (nonneg : 0 ≤ endRow) (startCol endCol : Int) :
    textframeExtract text startRow startCol endRow endCol =
      textframeExtract text (clampRow text startRow) startCol (clampRow text endRow) endCol := by
  simp only [textframeExtract, textframeAdjustRC_clampRow nonempty nonneg,
    textframeAdjustRC_clampRow nonempty startNonneg]

variable {clip : Textframe}

section

variable (nonempty : text.data ≠ []) {startRow endRow : Int} (rows_le : startRow ≤ endRow)
  (nonneg : 0 ≤ endRow) {startCol endCol : Int}
  (extracted : textframeExtract text startRow startCol endRow endCol = some clip)
include nonempty rows_le nonneg extracted

/-- A copy that stays inside the text, between positions in order, comes from
the loop. -/
theorem textframeExtract_cases :
    ∃ startLine endLine, clampRow text startRow ≤ clampRow text endRow ∧
      text.data[clampRow text startRow]? = some startLine ∧
      text.data[clampRow text endRow]? = some endLine ∧
      copyLoop text (clampRow text startRow) (clampRow text endRow) startLine endLine
        (startColumn startLine startCol) (endColumn endLine endCol) = some clip.data := by
  have startNonneg : 0 ≤ startRow := by
    by_contra negative
    rw [textframeExtract_of_neg (by omega)] at extracted
    contradiction
  have clamped_le : clampRow text startRow ≤ clampRow text endRow := by
    rw [clampRow, clampRow]
    omega
  have readStart := getElem?_eq_getElem (clampRow_lt nonempty startRow)
  have readEnd := getElem?_eq_getElem (clampRow_lt nonempty endRow)
  rw [textframeExtract_clampRow nonempty startNonneg nonneg,
    textframeExtract_of_lines clamped_le readStart readEnd, map_eq_some_iff] at extracted
  obtain ⟨rows, loop, rfl⟩ := extracted
  exact ⟨_, _, clamped_le, readStart, readEnd, loop⟩

/-- Such a copy has a row. -/
theorem textframeExtract_ne_nil : clip.data ≠ [] := by
  obtain ⟨startLine, endLine, -, -, -, loop⟩ :=
    textframeExtract_cases nonempty rows_le nonneg extracted
  have length := extractLoop_length loop
  intro empty
  rw [empty, length_nil, extractedRows] at length
  omega

end

/-- The number of rows in an extracted text. -/
theorem textframeExtract_length
    (extracted : textframeExtract text selection.startRow selection.startCol selection.endRow
      selection.endCol = some clip) :
    clip.data.length = selection.extractRows := by
  rw [textframeExtract_eq_loop, map_eq_some_iff] at extracted
  obtain ⟨rows, loop, rfl⟩ := extracted
  exact extractLoop_length loop

private theorem substr_tail (line : Row) (col : Nat) (len : Int)
    (whole : (line.length : Int) - col ≤ len) : substr line col len = line.drop col := by
  rw [substr_eq, take_of_length_le]
  rw [length_drop]
  omega

private theorem startLine_part :
    substr selection.startLine selection.fromCol
        (if selection.startRow = selection.endRow then
          (selection.toCol : Int) - selection.fromCol + 1
        else selection.startLine.length - selection.fromCol) =
      if selection.startRow = selection.endRow then
        (selection.startLine.drop selection.fromCol).take
          (selection.toCol + 1 - selection.fromCol)
      else selection.startLine.drop selection.fromCol := by
  split
  · rw [substr_eq]
    congr 1
    omega
  · exact substr_tail _ _ _ (Int.le_refl _)

/-- A selection that ends before the end of its last row is extracted as it
stands. -/
theorem textframeExtract_eq_selected (inside : selection.toCol < selection.endLine.length) :
    (textframeExtract text selection.startRow selection.startCol selection.endRow
      selection.endCol).map data = some selection.selected := by
  have first := startLine_part selection
  have reaches : ¬ (selection.toCol : Int) ≥ selection.endLine.length := by omega
  rw [textframeExtract_eq_loop]
  by_cases sameRow : selection.startRow = selection.endRow
  · have rows : selection.extractRows = 1 := by
      simp [extractRows, extractedRows, sameRow, inside]
    have notPast : ¬ ((0 : Int) = 0 ∧ (selection.fromCol : Int) > selection.startLine.length) := by
      have := selection.fromCol_le
      omega
    have next : extractNextLen text selection.toCol selection.endLine.length 1 0
        (selection.startRow + 1) = some ((selection.toCol : Int) + 1) := by
      rw [extractNextLen, if_neg (by decide), if_neg (by omega)]
    rw [rows, extractLoop, extractEnter, if_neg notPast]
    rw [if_pos sameRow] at first
    simp only [bind_eq_bind, bind_some, line?_natCast,
      selection.read_startLine, Int.natCast_one, next, extractLoop, if_pos sameRow, first,
      map_some, copiedText, selected]
  · have rows_lt := Nat.lt_of_le_of_ne selection.rows_le sameRow
    have rows : selection.extractRows = selection.middle.length + 2 := by
      rw [selection.middle_length rows_lt, extractRows, extractedRows, if_pos inside]
      omega
    have fromCol_le : (selection.fromCol : Int) ≤ selection.startLine.length := by
      have := selection.fromCol_le
      omega
    have last := substr_eq selection.endLine 0 (lastLen selection.toCol selection.endLine.length)
    rw [lastLen, if_neg reaches, Int.natCast_zero, drop_zero,
      show ((selection.toCol : Int) + 1).toNat = selection.toCol + 1 by omega] at last
    rw [if_neg sameRow] at first
    rw [rows, extractLoop_first selection.read_startLine fromCol_le
      (selection.drop_startRow rows_lt)]
    simp only [if_neg sameRow, first, lastLen, if_neg reaches, last, map_some, copiedText, selected]

/-- A selection that reaches the end of its last row is extracted with the line
break behind it, provided there is a row below. -/
theorem textframeExtract_eq_selected_break
    (reaches : selection.endLine.length ≤ selection.toCol)
    (below : selection.endRow + 1 < text.data.length) :
    (textframeExtract text selection.startRow selection.startCol selection.endRow
      selection.endCol).map data = some (selection.selected ++ [[]]) := by
  have first := startLine_part selection
  have reachesInt : (selection.toCol : Int) ≥ selection.endLine.length := by omega
  have fromCol_le : (selection.fromCol : Int) ≤ selection.startLine.length := by
    have := selection.fromCol_le
    omega
  rw [textframeExtract_eq_loop]
  by_cases sameRow : selection.startRow = selection.endRow
  · have rows : selection.extractRows = ([] : List Row).length + 2 := by
      rw [extractRows, extractedRows, if_neg (by omega), sameRow, Nat.sub_self, length_nil]
    have next : text.data.drop (selection.startRow + 1) =
        [] ++ text.data.get ⟨selection.endRow + 1, below⟩ ::
          text.data.drop (selection.endRow + 1 + 1) := by
      rw [sameRow, drop_eq_getElem_cons below]
      rfl
    rw [if_pos sameRow] at first
    rw [rows, extractLoop_first selection.read_startLine fromCol_le next]
    simp only [if_pos sameRow, first, lastLen, if_pos reachesInt, substr_zero_zero, map_some,
      copiedText, selected, nil_append, cons_append]
  · have rows_lt := Nat.lt_of_le_of_ne selection.rows_le sameRow
    have rows : selection.extractRows = (selection.middle ++ [selection.endLine]).length + 2 := by
      rw [length_append, selection.middle_length rows_lt, extractRows,
        extractedRows, if_neg (by omega), length_singleton]
      omega
    have next : text.data.drop (selection.startRow + 1) =
        (selection.middle ++ [selection.endLine]) ++ text.data.get ⟨selection.endRow + 1, below⟩ ::
          text.data.drop (selection.endRow + 1 + 1) := by
      rw [selection.drop_startRow rows_lt]
      simp
    have whole : selection.endLine.take (selection.toCol + 1) = selection.endLine :=
      take_of_length_le (by omega)
    rw [if_neg sameRow] at first
    rw [rows, extractLoop_first selection.read_startLine fromCol_le next]
    simp only [if_neg sameRow, first, lastLen, if_pos reachesInt, substr_zero_zero, map_some,
      copiedText, selected, whole, cons_append]

/-- At the end of the last row of the text the line break is read past the row
array. -/
theorem textframeExtract_eq_none
    (reaches : selection.endLine.length ≤ selection.toCol)
    (lastRow : selection.endRow + 1 = text.data.length) :
    textframeExtract text selection.startRow selection.startCol selection.endRow
      selection.endCol = none := by
  have notPast : ¬ (((0 : Nat) : Int) = 0 ∧
      (selection.fromCol : Int) > selection.startLine.length) := by
    have := selection.fromCol_le
    omega
  have short : text.data.length < selection.startRow + selection.extractRows := by
    rw [extractRows, extractedRows, if_neg (by omega)]
    omega
  have loop (lineLen : Int) :
      extractLoop text selection.startLine.length selection.toCol selection.endLine.length
        selection.extractRows selection.extractRows 0 selection.startRow selection.fromCol
        lineLen = none := by
    exact extractLoop_eq_none notPast (Nat.le_of_lt selection.startRow_lt) short
  rw [textframeExtract_eq_loop, loop, map_none]

/-- The flat reading of what `textframe_extract` should return: the selected
text, with a line break behind it when the selection reaches the end of its last
row. -/
def Selection.copied : List UInt8 :=
  joinLines lineFeed selection.selected ++
    if selection.toCol < selection.endLine.length then [] else [lineFeed]

/-- `textframe_extract` stays inside the text and copies the selection if and
only if the selection ends before the end of its last row, or that row is not
the last one of the text. -/
theorem textframeExtract_copies_selection_iff :
    (∃ clip, textframeExtract text selection.startRow selection.startCol selection.endRow
        selection.endCol = some clip ∧ joinLines lineFeed clip.data = selection.copied) ↔
      selection.toCol < selection.endLine.length ∨ selection.endRow + 1 < text.data.length := by
  by_cases inside : selection.toCol < selection.endLine.length
  · obtain ⟨clip, called, data_eq⟩ :=
      map_eq_some_iff.mp (textframeExtract_eq_selected selection inside)
    refine iff_of_true ⟨clip, called, ?_⟩ (.inl inside)
    rw [data_eq, copied, if_pos inside, append_nil]
  · by_cases below : selection.endRow + 1 < text.data.length
    · obtain ⟨clip, called, data_eq⟩ := map_eq_some_iff.mp
        (textframeExtract_eq_selected_break selection (Nat.le_of_not_lt inside) below)
      refine iff_of_true ⟨clip, called, ?_⟩ (.inr below)
      rcases eq_nil_or_concat' selection.selected with empty | ⟨above, last, selected_eq⟩
      · exact absurd empty selection.selected_ne_nil
      · rw [data_eq, copied, if_neg inside, selected_eq, append_assoc]
        exact joinLines_concat_nil lineFeed above last
    · have lastRow : selection.endRow + 1 = text.data.length := by
        have := selection.endRow_lt
        omega
      have outside := textframeExtract_eq_none selection (Nat.le_of_not_lt inside) lastRow
      refine iff_of_false ?_ (not_or.mpr ⟨inside, below⟩)
      rintro ⟨clip, called, -⟩
      rw [outside] at called
      contradiction

/-- The selection of the whole of a text of one row, `a`, with its end. -/
def wholeRow : Selection (lineEditSetStr [97]) where
  startRow := 0
  startCol := 0
  endRow := 0
  endCol := 1
  rows_le := by decide
  endRow_lt := by decide
  cols_le := by decide

theorem extract_wholeRow_leaves_text :
    ¬ ∃ clip, textframeExtract (lineEditSetStr [97]) wholeRow.startRow wholeRow.startCol
        wholeRow.endRow wholeRow.endCol = some clip ∧
      joinLines lineFeed clip.data = wholeRow.copied := by
  rintro ⟨clip, called, -⟩
  contradiction

end

end XEditor.Text
