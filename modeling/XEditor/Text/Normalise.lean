import XEditor.Text.Insert

/-!
# Coordinates outside the text

`textAPI.md` says what the three range operations make of coordinates that are
negative or too large.  The operations first call `textframe_adjust_r_c`, which
already rewrites such values, and then correct what they find as if it had not.
This module says for which coordinates the outcome is the documented one.
-/

namespace XEditor.Text

open List Option Textframe

/-! ## The documented coordinates -/

/-- A negative row or column of a start position stands for 0. -/
def documentedStart (coordinate : Int) : Int :=
  if coordinate < 0 then 0 else coordinate

/-- A negative or too large row of an end position stands for the last row. -/
def documentedEndRow (text : Textframe) (endRow : Int) : Int :=
  if endRow < 0 ∨ endRow ≥ text.maxrow then text.maxrow - 1 else endRow

/-- A negative or too large column of an end position stands for the end of its
row. -/
def documentedEndCol (text : Textframe) (endRow endCol : Int) : Int :=
  clipColumn ((text.line? (documentedEndRow text endRow)).getD []) endCol

/-- An operation returns what it returns for the documented coordinates, without
reading outside a row array. -/
def SameResult (result documented : Option Textframe) : Prop :=
  result = documented ∧ result ≠ none

/-- The three operations treat the coordinates as documented. -/
structure AsDocumented (text : Textframe) (startRow startCol endRow endCol : Int) : Prop where
  extract : SameResult (textframeExtract text startRow startCol endRow endCol)
    (textframeExtract text (documentedStart startRow) (documentedStart startCol)
      (documentedEndRow text endRow) (documentedEndCol text endRow endCol))
  delete : SameResult (textframeDelete text startRow startCol endRow endCol)
    (textframeDelete text (documentedStart startRow) (documentedStart startCol)
      (documentedEndRow text endRow) (documentedEndCol text endRow endCol))
  insert : ∀ inText : Textframe, inText.data ≠ [] →
    SameResult (textframeInsert text inText startRow startCol)
      (textframeInsert text inText (documentedStart startRow) (documentedStart startCol))

/-! ## Columns -/

theorem documentedStart_of_nonneg {coordinate : Int} (nonneg : 0 ≤ coordinate) :
    documentedStart coordinate = coordinate := by
  rw [documentedStart, if_neg (by omega)]

section

variable (line : Row)

theorem clampColumn_documentedStart (c : Int) :
    clampColumn line (documentedStart c) = clampColumn line c := by
  unfold clampColumn documentedStart
  split <;> omega

theorem startColumn_documentedStart (c : Int) :
    startColumn line (documentedStart c) = startColumn line c := by
  rw [startColumn, startColumn, clampColumn_documentedStart]

theorem cursorColumn_documentedStart (c : Int) :
    cursorColumn line (documentedStart c) = cursorColumn line c := by
  rw [cursorColumn, cursorColumn, clampColumn_documentedStart]

theorem endColumn_length : endColumn line line.length = line.length := by
  have atEnd : startsHan line line.length = false := by
    simp [startsHan, isHanAt]
  rw [endColumn, clampColumn_of_le (Nat.le_refl _), atEnd, if_neg Bool.false_ne_true]

theorem endColumn_clipColumn {c : Int} (nonneg : 0 ≤ c) :
    endColumn line (clipColumn line c) = endColumn line c := by
  have clamped : clampColumn line (clipColumn line c) = clampColumn line c := by
    unfold clampColumn clipColumn
    split <;> omega
  rw [endColumn, endColumn, clamped]

theorem endColumn_clipColumn_of_neg {c : Int} (negative : c < 0) :
    endColumn line (clipColumn line c) = line.length := by
  rw [clipColumn, if_pos (.inl negative), endColumn_length]

theorem endColumn_of_neg {c : Int} (negative : c < 0) : endColumn line c = endColumn line 0 := by
  have clamped : clampColumn line c = clampColumn line 0 := by
    unfold clampColumn
    omega
  rw [endColumn, endColumn, clamped]

theorem endColumn_le (c : Int) : endColumn line c ≤ line.length := by
  unfold endColumn
  split
  · rename_i starts
    rw [startsHan, Bool.and_eq_true] at starts
    exact lt_length_of_isHanAt starts.1
  · exact clampColumn_le line c

/-- Inside a row the aligned end column is the column, or the next one. -/
theorem endColumn_natCast {col : Nat} (inside : col < line.length) :
    endColumn line col = if startsHan line col then col + 1 else col := by
  rw [endColumn, clampColumn_of_le (Nat.le_of_lt inside)]

end

/-! ## Extracting between two rows -/

section

variable {text : Textframe} {startRow endRow fromCol : Nat} {startLine endLine : Row}
  {startCol endCol : Int}

/-- A negative end row becomes the last row, and its column stays as it is. -/
theorem textframeExtract_neg_endRow (readStart : text.data[startRow]? = some startLine)
    (lastRow : endRow + 1 = text.data.length) (readEnd : text.data[endRow]? = some endLine)
    {stopRow : Int} (negative : stopRow < 0) (startCol endCol : Int) :
    textframeExtract text startRow startCol stopRow endCol =
      extractRange text startRow endRow startLine endLine (startColumn startLine startCol)
        endCol := by
  have start_eq := textframeAdjustRC_of_line readStart startCol 0 (-1)
  rw [adjustColumn_start] at start_eq
  have behind : text.maxrow + 1 < 0 ∨ text.maxrow + 1 ≥ text.maxrow := by omega
  have last : text.maxrow - 1 = (endRow : Int) := by
    rw [maxrow]
    omega
  exact extractRange_of_stop readStart readEnd (startColumn_le _ _) start_eq
    (textframeAdjustRC_of_neg text negative endCol 1 1) ((if_pos behind).trans last)

/-- The loop returns when the rows asked for exist. -/
theorem extractLoop_isSome {maxRow startLen startCol lineLen : Int} {left i r : Nat}
    (notPast : ¬ ((i : Int) = 0 ∧ startCol > startLen)) (count : (i + left : Nat) = maxRow)
    (inside : r + left ≤ text.data.length) :
    ∃ rows, extractLoop text startLen endCol endLine.length maxRow left i r startCol lineLen =
      some rows := by
  induction left generalizing i r startCol lineLen with
  | zero => exact ⟨[], rfl⟩
  | succ left ih =>
    obtain ⟨next, nextRead⟩ : ∃ next, extractNextLen text endCol endLine.length maxRow i
        ((r + 1 : Nat) : Int) = some next := by
      rw [extractNextLen]
      split
      · rw [line?_natCast, getElem?_eq_getElem (by omega)]
        exact ⟨_, rfl⟩
      · split
        · exact ⟨0, rfl⟩
        · exact ⟨_, rfl⟩
    obtain ⟨rows, rest⟩ : ∃ rows, extractLoop text startLen endCol endLine.length maxRow left
        ((i + 1 : Nat) : Int) ((r + 1 : Nat) : Int) 0 next = some rows :=
      ih (by omega) (by omega) (by omega)
    rw [Int.natCast_add, Int.natCast_one] at nextRead
    rw [Int.natCast_add, Int.natCast_add, Int.natCast_one] at rest
    rw [extractLoop, extractEnter, if_neg notPast]
    simp only [bind_eq_bind, bind_some, line?_natCast,
      getElem?_eq_getElem (show r < text.data.length by omega), nextRead, rest]
    exact ⟨_, rfl⟩

/-- The number of rows extracted. -/
theorem extractRange_length {clip : Textframe}
    (extracted : extractRange text startRow endRow startLine endLine fromCol endCol = some clip) :
    clip.data.length =
      ((endRow : Int) - startRow + 1 + if endCol ≥ endLine.length then 1 else 0).toNat := by
  rw [extractRange] at extracted
  generalize (endRow : Int) - startRow + 1 + (if endCol ≥ endLine.length then 1 else 0) =
    maxRow at extracted ⊢
  split at extracted
  · rw [some.injEq] at extracted
    rw [← extracted, length_nil]
    omega
  · obtain ⟨rows, loop, rfl⟩ := map_eq_some_iff.mp extracted
    exact extractLoop_length loop

/-- Extracting fails exactly when the line break behind the last row of the text
is asked for. -/
theorem extractRange_eq_none_iff (startRow_lt : startRow < text.data.length)
    (endRow_lt : endRow < text.data.length) (fromCol_le : fromCol ≤ startLine.length) :
    extractRange text startRow endRow startLine endLine fromCol endCol = none ↔
      endCol ≥ endLine.length ∧ startRow ≤ endRow ∧ endRow + 1 = text.data.length := by
  rw [extractRange]
  generalize count : (endRow : Int) - startRow + 1 + (if endCol ≥ endLine.length then 1 else 0) =
    maxRow
  by_cases empty : maxRow ≤ 0
  · rw [if_pos empty]
    refine iff_of_false (by simp) ?_
    omega
  · obtain ⟨left, rfl⟩ := Int.eq_ofNat_of_zero_le (by omega : 0 ≤ maxRow)
    have notPast : ¬ (((0 : Nat) : Int) = 0 ∧ (fromCol : Int) > startLine.length) := by omega
    rw [if_neg empty, Int.toNat_natCast, ← Int.natCast_zero]
    by_cases inside : startRow + left ≤ text.data.length
    · obtain ⟨rows, loop⟩ := extractLoop_isSome notPast (by rw [Nat.zero_add]) inside
      rw [loop]
      refine iff_of_false (by simp) ?_
      omega
    · rw [extractLoop_eq_none notPast (Nat.le_of_lt startRow_lt) (by omega)]
      refine iff_of_true rfl ?_
      split at count
      · rename_i reaches
        exact ⟨reaches, by omega, by omega⟩
      · omega

/-- The last row of an extracted text, when the range ends before the end of a
later row. -/
theorem extractRange_getLast {col : Nat} (rows_lt : startRow < endRow)
    (readStart : text.data[startRow]? = some startLine)
    (readEnd : text.data[endRow]? = some endLine) (fromCol_le : fromCol ≤ startLine.length)
    (inside : col < endLine.length) {clip : Textframe}
    (extracted : extractRange text startRow endRow startLine endLine fromCol col = some clip) :
    clip.data.getLast? = some (endLine.take (col + 1)) := by
  obtain ⟨endRow_lt, endLine_eq⟩ := List.getElem?_eq_some_iff.mp readEnd
  have notReached : ¬ (col : Int) ≥ endLine.length := by omega
  have below : text.data.drop (startRow + 1) =
      (text.data.drop (startRow + 1)).take (endRow - startRow - 1) ++
        endLine :: text.data.drop (endRow + 1) := by
    rw [← endLine_eq, ← drop_eq_getElem_cons endRow_lt]
    have split := take_append_drop (endRow - startRow - 1) (text.data.drop (startRow + 1))
    rw [drop_drop, show startRow + 1 + (endRow - startRow - 1) = endRow by omega] at split
    exact split.symm
  have middle : ((text.data.drop (startRow + 1)).take (endRow - startRow - 1)).length + 2 =
      endRow - startRow + 1 := by
    rw [length_take, length_drop]
    omega
  have count : (endRow : Int) - startRow + 1 + (if (col : Int) ≥ endLine.length then 1 else 0) =
      ((endRow - startRow + 1 : Nat) : Int) := by
    omega
  have positive : ¬ ((endRow - startRow + 1 : Nat) : Int) ≤ 0 := by omega
  have copied := substr_eq endLine 0 (lastLen col endLine.length)
  rw [lastLen, if_neg notReached, Int.natCast_zero, drop_zero,
    show ((col : Int) + 1).toNat = col + 1 by omega] at copied
  rw [extractRange, count, if_neg positive, Int.toNat_natCast, ← middle,
    extractLoop_first readStart (by omega) below, map_some, some.injEq] at extracted
  rw [← extracted, lastLen, if_neg notReached, copied, ← cons_append, getLast?_concat]

end

/-! ## Deleting up to a negative row -/

/-- A deletion up to a negative row keeps the last row, cut to the length of the
start row. -/
theorem textframeDelete_neg_endRow {text : Textframe} {start : Nat} {startLine lastLine : Row}
    (readStart : text.data[start]? = some startLine)
    (readLast : text.data[text.data.length - 1]? = some lastLine) {endRow : Int}
    (negative : endRow < 0) (startCol endCol : Int) :
    textframeDelete text start startCol endRow endCol =
      some (deleted (text.data.take start ++ (startLine.take (startColumn startLine startCol) ++
        lastLine.take startLine.length) :: text.data.drop (text.data.length - 1 + 1))) := by
  have start_lt := (List.getElem?_eq_some_iff.mp readStart).1
  have behind : text.maxrow + 1 ≥ text.maxrow := by omega
  have last : text.maxrow - 1 = ((text.data.length - 1 : Nat) : Int) := by
    rw [maxrow]
    omega
  have loop : deleteLoop text start (startColumn startLine startCol)
      ((text.data.length - 1 : Nat) : Int) (-1) text.data.length 0 =
        some (text.data.take start ++ (startLine.take (startColumn startLine startCol) ++
          (lastLine.drop 0).take (startLine.length - 0)) ::
            text.data.drop (text.data.length - 1 + 1)) :=
    deleteLoop_eq (by omega) readStart readLast rfl
  rw [drop_zero, Nat.sub_zero] at loop
  simp only [textframeDelete, textframeAdjustRC_of_line readStart, adjustColumn_start,
    textframeAdjustRC_of_neg text negative, if_neg (natCast_not_neg _),
    if_pos behind, last, loop, bind_eq_bind, bind_some, deleted]

/-- Two prefixes of which one skips a part agree only when there is nothing. -/
private theorem take_eq_take_drop_iff (line : Row) (count skipped : Nat) :
    line.take count = (line.drop (skipped + 1)).take (count - (skipped + 1)) ↔
      count = 0 ∨ line = [] := by
  constructor
  · intro same
    have length := congrArg List.length same
    rw [length_take, length_take, length_drop] at length
    by_cases none : count = 0
    · exact .inl none
    · refine .inr (length_eq_zero_iff.mp ?_)
      omega
  · rintro (rfl | rfl)
    · simp
    · simp

/-! ## Which coordinates are treated as documented -/

/-- The bytes of a row, none for a row that does not exist. -/
def lineAt (text : Textframe) (r : Nat) : Row :=
  (text.data[r]?).getD []

/-- The coordinates that the operations treat as documented.  A start row is not
negative.  With end coordinates that are not negative either, the range must not
reach the end of the last row.  A negative end column goes unnoticed when the
range is empty or the end row has nothing that the column 0 leaves out; a
negative end row, when the start row is empty and the column needs no
alignment. -/
def CoordinatesKept (text : Textframe) (startRow endRow endCol : Int) : Prop :=
  text.data ≠ [] ∧ 0 ≤ startRow ∧
    if endRow < 0 then
      lineAt text (clampRow text startRow) = [] ∧ 0 ≤ endCol ∧
        endCol < (lineAt text (text.data.length - 1)).length ∧
        startsHan (lineAt text (text.data.length - 1)) endCol.toNat = false
    else if endCol < 0 then
      clampRow text endRow + 1 < clampRow text startRow ∨
        endColumn (lineAt text (clampRow text endRow)) 0 =
            (lineAt text (clampRow text endRow)).length ∧
          clampRow text endRow + 1 < text.data.length
    else
      endColumn (lineAt text (clampRow text endRow)) endCol <
          (lineAt text (clampRow text endRow)).length ∨
        clampRow text endRow + 1 < text.data.length

section

variable {text : Textframe} (nonempty : text.data ≠ []) {startRow endRow : Int}

include nonempty

theorem read_lineAt_clampRow (r : Int) :
    text.data[clampRow text r]? = some (lineAt text (clampRow text r)) := by
  rw [lineAt, getElem?_eq_getElem (clampRow_lt nonempty r), getD_some]

theorem read_lineAt_last :
    text.data[text.data.length - 1]? = some (lineAt text (text.data.length - 1)) := by
  have rows := length_pos_iff.mpr nonempty
  rw [lineAt, getElem?_eq_getElem (by omega), getD_some]

theorem documentedEndRow_of_nonneg (nonneg : 0 ≤ endRow) :
    documentedEndRow text endRow = clampRow text endRow := by
  rw [← clampRow_eq nonempty nonneg, documentedEndRow]
  by_cases behind : endRow ≥ text.maxrow
  · rw [if_pos (.inr behind), if_pos behind]
  · rw [if_neg (by omega), if_neg behind]

theorem documentedEndRow_of_neg (negative : endRow < 0) :
    documentedEndRow text endRow = ((text.data.length - 1 : Nat) : Int) := by
  have rows := length_pos_iff.mpr nonempty
  rw [documentedEndRow, maxrow]
  omega

theorem documentedEndCol_of_nonneg (nonneg : 0 ≤ endRow) (endCol : Int) :
    documentedEndCol text endRow endCol =
      clipColumn (lineAt text (clampRow text endRow)) endCol := by
  rw [documentedEndCol, documentedEndRow_of_nonneg nonempty nonneg, line?_natCast, lineAt]

/-- An insertion at a row that is not negative is as documented. -/
theorem insert_sameResult (startNonneg : 0 ≤ startRow) (startCol : Int) {inText : Textframe}
    (rows : inText.data ≠ []) :
    SameResult (textframeInsert text inText startRow startCol)
      (textframeInsert text inText (documentedStart startRow) (documentedStart startCol)) := by
  have read := read_lineAt_clampRow nonempty startRow
  have clamped (col : Int) : textframeInsert text inText startRow col =
      textframeInsert text inText (clampRow text startRow) col := by
    simp only [textframeInsert, textframeAdjustRC_clampRow nonempty startNonneg]
  rw [documentedStart_of_nonneg startNonneg, clamped, clamped,
    textframeInsert_eq read startCol rows, textframeInsert_eq read (documentedStart startCol) rows,
    cursorColumn_documentedStart]
  exact ⟨rfl, by simp⟩

/-! ### An end row that is not negative -/

theorem extract_sameResult_iff (startNonneg : 0 ≤ startRow) (nonneg : 0 ≤ endRow)
    (startCol endCol : Int) :
    SameResult (textframeExtract text startRow startCol endRow endCol)
        (textframeExtract text (documentedStart startRow) (documentedStart startCol)
          (documentedEndRow text endRow) (documentedEndCol text endRow endCol)) ↔
      CoordinatesKept text startRow endRow endCol := by
  have startRow_lt := clampRow_lt nonempty startRow
  have endRow_lt := clampRow_lt nonempty endRow
  have readStart := read_lineAt_clampRow nonempty startRow
  have readEnd := read_lineAt_clampRow nonempty endRow
  rw [CoordinatesKept, and_iff_right nonempty, and_iff_right startNonneg, if_neg (by omega),
    documentedStart_of_nonneg startNonneg, documentedEndCol_of_nonneg nonempty nonneg,
    documentedEndRow_of_nonneg nonempty nonneg,
    textframeExtract_clampRow nonempty startNonneg nonneg,
    textframeExtract_clampRow nonempty startNonneg (Int.natCast_nonneg _),
    clampRow_natCast endRow_lt,
    textframeExtract_eq_range readStart readEnd, textframeExtract_eq_range readStart readEnd,
    startColumn_documentedStart]
  generalize lineAt text (clampRow text startRow) = startLine at *
  generalize lineAt text (clampRow text endRow) = endLine at *
  have fromCol_le := startColumn_le startLine startCol
  have none_iff (col : Int) : extractRange text (clampRow text startRow) (clampRow text endRow)
      startLine endLine (startColumn startLine startCol) col = none ↔
        col ≥ endLine.length ∧ clampRow text startRow ≤ clampRow text endRow ∧
          clampRow text endRow + 1 = text.data.length :=
    extractRange_eq_none_iff startRow_lt endRow_lt fromCol_le
  by_cases negative : endCol < 0
  · rw [if_pos negative, endColumn_clipColumn_of_neg endLine negative,
      endColumn_of_neg endLine negative]
    by_cases whole : endColumn endLine 0 = endLine.length
    · rw [whole, SameResult, and_iff_right rfl, ne_eq, none_iff]
      omega
    have short : endColumn endLine 0 < endLine.length :=
      Nat.lt_of_le_of_ne (endColumn_le endLine 0) whole
    constructor
    · rintro ⟨same, returns⟩
      obtain ⟨clip, extracted⟩ := ne_none_iff_exists'.mp returns
      have length := extractRange_length extracted
      have documented := extractRange_length (same.symm.trans extracted)
      rw [if_neg (by omega)] at length
      rw [if_pos (by omega)] at documented
      omega
    · rintro (empty | ⟨whole, -⟩)
      · have none_of (col : Int) : (clampRow text endRow : Int) - clampRow text startRow + 1 +
            (if col ≥ endLine.length then 1 else 0) ≤ 0 := by
          split <;> omega
        rw [extractRange, extractRange, if_pos (none_of _), if_pos (none_of _)]
        exact ⟨rfl, by simp⟩
      · omega
  · rw [if_neg negative, endColumn_clipColumn endLine (by omega), SameResult, and_iff_right rfl,
      ne_eq, none_iff]
    omega

/-- Deleting follows the documentation wherever extracting does. -/
theorem delete_sameResult (startNonneg : 0 ≤ startRow) (nonneg : 0 ≤ endRow)
    (startCol : Int) {endCol : Int}
    (unnoticed : endCol < 0 → clampRow text endRow + 1 < clampRow text startRow ∨
      endColumn (lineAt text (clampRow text endRow)) 0 =
        (lineAt text (clampRow text endRow)).length) :
    SameResult (textframeDelete text startRow startCol endRow endCol)
      (textframeDelete text (documentedStart startRow) (documentedStart startCol)
        (documentedEndRow text endRow) (documentedEndCol text endRow endCol)) := by
  have endRow_lt := clampRow_lt nonempty endRow
  have readStart := read_lineAt_clampRow nonempty startRow
  have readEnd := read_lineAt_clampRow nonempty endRow
  rw [documentedStart_of_nonneg startNonneg, documentedEndCol_of_nonneg nonempty nonneg,
    documentedEndRow_of_nonneg nonempty nonneg,
    textframeDelete_clampRow nonempty startNonneg nonneg,
    textframeDelete_clampRow nonempty startNonneg (Int.natCast_nonneg _),
    clampRow_natCast endRow_lt]
  by_cases rows_le : clampRow text startRow ≤ clampRow text endRow
  · have column : endColumn (lineAt text (clampRow text endRow))
        (clipColumn (lineAt text (clampRow text endRow)) endCol) =
          endColumn (lineAt text (clampRow text endRow)) endCol := by
      by_cases negative : endCol < 0
      · rw [endColumn_clipColumn_of_neg _ negative, endColumn_of_neg _ negative]
        rcases unnoticed negative with empty | whole
        · omega
        · exact whole.symm
      · exact endColumn_clipColumn _ (by omega)
    rw [textframeDelete_of_lines rows_le readStart readEnd,
      textframeDelete_of_lines rows_le readStart readEnd, startColumn_documentedStart, column]
    exact ⟨rfl, by simp⟩
  · have startRow_lt := clampRow_lt nonempty startRow
    rw [textframeDelete_of_lt (by omega) startRow_lt, textframeDelete_of_lt (by omega) startRow_lt]
    exact ⟨rfl, by simp⟩

/-! ### A negative end row -/

variable (startNonneg : 0 ≤ startRow) (negative : endRow < 0) (startCol endCol : Int)
include startNonneg negative

theorem delete_neg_sameResult_iff :
    SameResult (textframeDelete text startRow startCol endRow endCol)
        (textframeDelete text (documentedStart startRow) (documentedStart startCol)
          (documentedEndRow text endRow) (documentedEndCol text endRow endCol)) ↔
      lineAt text (clampRow text startRow) = [] ∨ lineAt text (text.data.length - 1) = [] := by
  have readStart := read_lineAt_clampRow nonempty startRow
  have readLast := read_lineAt_last nonempty
  have startRow_lt := clampRow_lt nonempty startRow
  have clamped : textframeDelete text startRow startCol endRow endCol =
      textframeDelete text (clampRow text startRow) startCol endRow endCol := by
    simp only [textframeDelete, textframeAdjustRC_clampRow nonempty startNonneg]
  have lastRow : clampRow text ((text.data.length - 1 : Nat) : Int) = text.data.length - 1 :=
    clampRow_natCast (by omega)
  rw [documentedStart_of_nonneg startNonneg, documentedEndRow_of_neg nonempty negative,
    textframeDelete_clampRow nonempty startNonneg (Int.natCast_nonneg _), lastRow, clamped,
    textframeDelete_neg_endRow readStart readLast negative,
    textframeDelete_of_lines (by omega) readStart readLast, startColumn_documentedStart, SameResult,
    and_iff_left (by simp), some.injEq]
  constructor
  · intro same
    have rows := congrArg data same
    rw [deleted_data, deleted_data, append_cancel_left_eq, cons.injEq,
      and_iff_left rfl, joinedLine, append_cancel_left_eq, take_eq_take_drop_iff,
      length_eq_zero_iff] at rows
    exact rows
  · intro empty
    rw [← length_eq_zero_iff] at empty
    rw [joinedLine, ← (take_eq_take_drop_iff (lineAt text (text.data.length - 1)) _ _).mpr empty]

/-- With a negative end row extracting and deleting both follow the documentation
only in the one case in which nothing depends on what goes wrong. -/
theorem extract_neg_sameResult_iff :
    (SameResult (textframeExtract text startRow startCol endRow endCol)
        (textframeExtract text (documentedStart startRow) (documentedStart startCol)
          (documentedEndRow text endRow) (documentedEndCol text endRow endCol)) ∧
      (lineAt text (clampRow text startRow) = [] ∨ lineAt text (text.data.length - 1) = [])) ↔
      CoordinatesKept text startRow endRow endCol := by
  have rows := length_pos_iff.mpr nonempty
  have readStart := read_lineAt_clampRow nonempty startRow
  have readLast := read_lineAt_last nonempty
  have startRow_lt := clampRow_lt nonempty startRow
  have clamped : textframeExtract text startRow startCol endRow endCol =
      textframeExtract text (clampRow text startRow) startCol endRow endCol := by
    simp only [textframeExtract, textframeAdjustRC_clampRow nonempty startNonneg]
  have lastRow : clampRow text ((text.data.length - 1 : Nat) : Int) = text.data.length - 1 :=
    clampRow_natCast (by omega)
  -- The two lines are different unless the range stays in the last row.
  have sameLine : clampRow text startRow = text.data.length - 1 →
      lineAt text (clampRow text startRow) = lineAt text (text.data.length - 1) :=
    fun same => by rw [same]
  rw [CoordinatesKept, and_iff_right nonempty, and_iff_right startNonneg, if_pos negative,
    documentedStart_of_nonneg startNonneg, documentedEndCol,
    documentedEndRow_of_neg nonempty negative, line?_natCast, ← lineAt,
    textframeExtract_clampRow nonempty startNonneg (Int.natCast_nonneg _), lastRow, clamped,
    textframeExtract_neg_endRow readStart (by omega) readLast negative,
    textframeExtract_eq_range readStart readLast, startColumn_documentedStart]
  generalize lineAt text (clampRow text startRow) = startLine at *
  generalize lineAt text (text.data.length - 1) = lastLine at *
  have fromCol_le := startColumn_le startLine startCol
  have returns_iff (col : Int) : extractRange text (clampRow text startRow) (text.data.length - 1)
      startLine lastLine (startColumn startLine startCol) col ≠ none ↔ col < lastLine.length := by
    have none_iff : extractRange text (clampRow text startRow) (text.data.length - 1) startLine
        lastLine (startColumn startLine startCol) col = none ↔ _ :=
      extractRange_eq_none_iff startRow_lt (by omega) fromCol_le
    rw [ne_eq, none_iff]
    omega
  constructor
  · rintro ⟨⟨same, returns⟩, empty⟩
    have inside := (returns_iff endCol).mp returns
    have documented := (returns_iff _).mp (same ▸ returns)
    have nonneg : 0 ≤ endCol := by
      by_contra negativeCol
      rw [endColumn_clipColumn_of_neg lastLine (by omega)] at documented
      omega
    obtain ⟨col, rfl⟩ := Int.eq_ofNat_of_zero_le nonneg
    have startEmpty : startLine = [] := by
      refine empty.resolve_right fun lastEmpty => ?_
      rw [lastEmpty, length_nil] at inside
      omega
    refine ⟨startEmpty, nonneg, inside, ?_⟩
    rw [endColumn_clipColumn lastLine nonneg, endColumn_natCast lastLine (by omega)]
      at same documented
    rw [Int.toNat_natCast]
    by_contra starts
    rw [Bool.not_eq_false] at starts
    rw [if_pos starts] at same documented
    have rows_lt : clampRow text startRow < text.data.length - 1 := by
      refine Nat.lt_of_le_of_ne (by omega) fun sameRow => ?_
      rw [← sameLine sameRow, startEmpty, length_nil] at inside
      omega
    obtain ⟨clip, extracted⟩ := ne_none_iff_exists'.mp returns
    have last := extractRange_getLast rows_lt readStart readLast fromCol_le (by omega) extracted
    have lastDocumented := extractRange_getLast rows_lt readStart readLast fromCol_le (by omega)
      (same.symm.trans extracted)
    rw [last, some.injEq] at lastDocumented
    have length := congrArg List.length lastDocumented
    rw [length_take, length_take] at length
    omega
  · rintro ⟨startEmpty, nonneg, inside, notStart⟩
    obtain ⟨col, rfl⟩ := Int.eq_ofNat_of_zero_le nonneg
    rw [Int.toNat_natCast] at notStart
    rw [endColumn_clipColumn lastLine nonneg, endColumn_natCast lastLine (by omega), notStart,
      if_neg Bool.false_ne_true]
    exact ⟨⟨rfl, (returns_iff col).mpr inside⟩, .inl startEmpty⟩

end

/-- Extracting from a text without rows reads outside of it. -/
theorem textframeExtract_of_empty {text : Textframe} (empty : text.data = [])
    (startRow startCol endRow endCol : Int) :
    textframeExtract text startRow startCol endRow endCol = none := by
  have noLine (r : Int) : text.line? r = none := by
    rw [line?, empty]
    split <;> simp
  simp only [textframeExtract, noLine, bind_eq_bind, bind_none]

/-- The three operations treat coordinates as documented if and only if the
coordinates are kept. -/
theorem asDocumented_iff (text : Textframe) (startRow startCol endRow endCol : Int) :
    AsDocumented text startRow startCol endRow endCol ↔
      CoordinatesKept text startRow endRow endCol := by
  by_cases empty : text.data = []
  · refine iff_of_false (fun documented => documented.extract.2 ?_) fun kept => kept.1 empty
    exact textframeExtract_of_empty empty _ _ _ _
  by_cases startNegative : startRow < 0
  · refine iff_of_false (fun documented => documented.extract.2 ?_) fun kept => ?_
    · exact textframeExtract_of_neg startNegative _ _ _
    · exact absurd kept.2.1 (by omega)
  have startNonneg : 0 ≤ startRow := by omega
  by_cases negative : endRow < 0
  · rw [← extract_neg_sameResult_iff empty startNonneg negative startCol,
      ← delete_neg_sameResult_iff empty startNonneg negative startCol endCol]
    constructor
    · exact fun documented => ⟨documented.extract, documented.delete⟩
    · exact fun both => ⟨both.1, both.2,
        fun inText rows => insert_sameResult empty startNonneg startCol rows⟩
  · have nonneg : 0 ≤ endRow := by omega
    rw [← extract_sameResult_iff empty startNonneg nonneg startCol endCol]
    constructor
    · exact fun documented => documented.extract
    intro extract
    refine ⟨extract, ?_, fun inText rows => insert_sameResult empty startNonneg startCol rows⟩
    apply delete_sameResult empty startNonneg nonneg
    intro negativeCol
    rw [extract_sameResult_iff empty startNonneg nonneg, CoordinatesKept, if_neg negative,
      if_pos negativeCol] at extract
    exact extract.2.2.imp_right And.left

/-- A copy from row -1 on reads outside the text. -/
theorem negative_start_not_documented : ¬ AsDocumented (lineEditSetStr [97, 98]) (-1) 0 0 0 := by
  intro documented
  exact documented.extract.2 (by decide)

end XEditor.Text
