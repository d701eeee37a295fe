import XEditor.Text.Row

/-!
# Text frames and their editing primitives

A `Textframe` holds the rows of a document and a cursor.  The primitives below
follow `textframe.c` function by function.  Reading a row outside the row array
and storing outside a row are undefined in the source, so the primitives that
can do either are partial: `none` is such an access.

The scroll fields `row` and `col` of the source record are written but never
read and are left out.  The field `maxrow` is the length of `data`.
-/

namespace XEditor.Text

open List Pairing

/-- Source `struct textframe`. -/
structure Textframe where
  data : List Row
  cursorRow : Int
  cursorCol : Int
  maxrowCapacity : Int
  deriving DecidableEq, Repr

variable {text : Textframe} {r : Int}

namespace Textframe

/-- Number of rows. -/
def maxrow (text : Textframe) : Int :=
  text.data.length

/-- A checked read of `text->data[r]`. -/
def line? (text : Textframe) (r : Int) : Option Row :=
  if 0 ≤ r then text.data[r.toNat]? else none

@[simp]
theorem line?_natCast (text : Textframe) (r : Nat) : text.line? r = text.data[r]? := by
  simp [line?]

theorem mem_of_line? {line : Row} (read : text.line? r = some line) : line ∈ text.data := by
  rw [line?] at read
  split at read
  · exact mem_of_getElem? read
  · contradiction

/-- The row index that a negative one is adjusted to is not one of a row. -/
theorem line?_maxrow_succ (text : Textframe) : text.line? (text.maxrow + 1) = none := by
  rw [maxrow]
  exact getElem?_eq_none (by omega)

end Textframe

/-- The constant the source writes as `0x7fffffff`. -/
def intMax : Int := 2147483647

/-- Source `textframe_adjust_r_c`.  With `pos = 0` a column is moved off the
second byte of a Han character, with `pos = 1` off the first byte. -/
def textframeAdjustRC (text : Textframe) (r c pos dir : Int) : Int × Int :=
  let r := if r ≥ text.maxrow then text.maxrow - 1 else r
  let r := if r < 0 then text.maxrow + 1 else r
  match text.line? r with
  | none => (r, c)
  | some line => (r, adjustColumn line c pos dir)

/-- On an existing row only the column is adjusted. -/
theorem textframeAdjustRC_of_line {r : Nat} {line : Row} (read : text.data[r]? = some line)
    (c pos dir : Int) :
    textframeAdjustRC text r c pos dir = ((r : Int), adjustColumn line c pos dir) := by
  have bound := (List.getElem?_eq_some_iff.mp read).1
  have below : ¬ (r : Int) ≥ text.maxrow := by
    simp only [Textframe.maxrow]
    omega
  simp only [textframeAdjustRC, if_neg below, if_neg (natCast_not_neg _),
    Textframe.line?_natCast, read]

/-- The existing row a row index that is not negative is clamped to. -/
def clampRow (text : Textframe) (r : Int) : Nat :=
  min r.toNat (text.data.length - 1)

theorem clampRow_lt (nonempty : text.data ≠ []) (r : Int) : clampRow text r < text.data.length := by
  have rows : 0 < text.data.length := length_pos_iff.mpr nonempty
  rw [clampRow]
  omega

theorem clampRow_natCast {r : Nat} (bound : r < text.data.length) : clampRow text r = r := by
  rw [clampRow]
  omega

theorem clampRow_eq (nonempty : text.data ≠ []) (nonneg : 0 ≤ r) :
    (if r ≥ text.maxrow then text.maxrow - 1 else r) = clampRow text r := by
  have rows : 0 < text.data.length := length_pos_iff.mpr nonempty
  rw [clampRow, Textframe.maxrow]
  by_cases last : r ≥ (text.data.length : Int)
  · omega
  · omega

theorem textframeAdjustRC_clampRow (nonempty : text.data ≠ []) (nonneg : 0 ≤ r) (c pos dir : Int) :
    textframeAdjustRC text r c pos dir = textframeAdjustRC text (clampRow text r) c pos dir := by
  have clamped : (0 : Int) ≤ clampRow text r := by omega
  simp only [textframeAdjustRC, clampRow_eq nonempty nonneg, clampRow_eq nonempty clamped,
    clampRow_natCast (clampRow_lt nonempty r)]

/-- A negative row index ends up behind the last row. -/
theorem textframeAdjustRC_of_neg (text : Textframe) (negative : r < 0) (c pos dir : Int) :
    textframeAdjustRC text r c pos dir = (text.maxrow + 1, c) := by
  have notBehind : ¬ r ≥ text.maxrow := by
    rw [Textframe.maxrow]
    omega
  simp only [textframeAdjustRC, if_neg notBehind, if_pos negative, text.line?_maxrow_succ]

/-- `textframe_adjust_r_c` applied in place to the cursor. -/
def adjustCursor (text : Textframe) (pos dir : Int) : Textframe :=
  let position := textframeAdjustRC text text.cursorRow text.cursorCol pos dir
  { text with cursorRow := position.1, cursorCol := position.2 }

/-- Clipping a column to the end of a row in `move_to_pos`.  The source compares
it with the unsigned result of `strlen`, so a negative column counts as past
the end. -/
def clipColumn (line : Row) (c : Int) : Int :=
  if c < 0 ∨ c > line.length then line.length else c

/-- Source `move_to_pos`. -/
def moveToPos (text : Textframe) (r c : Int) : Textframe :=
  let r := if r = -1 then intMax else r
  let c := if c = -1 then intMax else c
  let r := if r ≥ text.maxrow then text.maxrow - 1 else r
  let c :=
    match text.line? r with
    | none => c
    | some line => clipColumn line c
  adjustCursor { text with cursorRow := r, cursorCol := c } 0 1

/-- The column `move_to_pos` ends at on a given row. -/
def posColumn (line : Row) (c : Int) : Nat :=
  cursorColumn line (clipColumn line (if c = -1 then intMax else c))

/-- On an existing row `move_to_pos` changes nothing but the cursor. -/
theorem moveToPos_of_line {r : Nat} {line : Row} (read : text.data[r]? = some line) (c : Int) :
    moveToPos text r c =
      { text with cursorRow := r, cursorCol := (posColumn line c : Int) } := by
  have bound := (List.getElem?_eq_some_iff.mp read).1
  have notLast : ¬ (r : Int) = -1 := by omega
  have below : ¬ (r : Int) ≥ text.maxrow := by
    simp only [Textframe.maxrow]
    omega
  have readHere (col : Int) :
      textframeAdjustRC { text with cursorRow := (r : Int), cursorCol := col } r col 0 1 =
        ((r : Int), adjustColumn line col 0 1) := by
    apply textframeAdjustRC_of_line
    exact read
  simp only [moveToPos, if_neg notLast, if_neg below, Textframe.line?_natCast, read,
    adjustCursor, readHere, adjustColumn_cursor, posColumn]

theorem posColumn_le (line : Row) (c : Int) : posColumn line c ≤ line.length :=
  cursorColumn_le _ _

/-- A column that is not negative is only clamped and aligned. -/
theorem posColumn_of_nonneg (line : Row) {c : Int} (nonneg : 0 ≤ c) :
    posColumn line c = cursorColumn line c := by
  have clamped : clampColumn line (clipColumn line c) = clampColumn line c := by
    unfold clampColumn clipColumn
    split <;> omega
  have notMark : ¬ c = -1 := by omega
  rw [posColumn, if_neg notMark, cursorColumn, cursorColumn, clamped]

/-- Source `putc_to_str`.  The terminator of the new row is the first NUL in
it, so storing a NUL ends the row at the cursor. -/
def putcToStr (text : Textframe) (ch : UInt8) : Option Textframe := do
  let line ← text.line? text.cursorRow
  if text.cursorCol < 0 ∨ text.cursorCol > line.length then none
  else
    let col := text.cursorCol.toNat
    let newLine := if ch = 0 then line.take col else line.take col ++ ch :: line.drop col
    some { text with data := text.data.set text.cursorRow.toNat newLine }

/-- Source `backspace_to_str`: remove the byte at the cursor, and one more byte
there when the first one belonged to a Han character. -/
def backspaceToStr (text : Textframe) : Option Textframe := do
  let text := adjustCursor text 0 1
  let line ← text.line? text.cursorRow
  if text.cursorCol < 0 then none
  else
    let p := text.cursorCol.toNat
    let once := line.eraseIdx p
    let newLine := if isHanAt line p then once.eraseIdx p else once
    some { text with data := text.data.set text.cursorRow.toNat newLine }

/-- Source `move_to_next_char`. -/
def moveToNextChar (text : Textframe) : Option Textframe := do
  let line ← text.line? text.cursorRow
  let moved :=
    if text.cursorCol < line.length then { text with cursorCol := text.cursorCol + 1 }
    else if text.cursorRow + 1 < text.maxrow then
      { text with cursorRow := text.cursorRow + 1, cursorCol := 0 }
    else text
  some (adjustCursor moved 0 1)

/-- Source `move_to_previous_char`. -/
def moveToPreviousChar (text : Textframe) : Option Textframe :=
  if text.cursorCol > 0 then
    some (adjustCursor { text with cursorCol := text.cursorCol - 1 } 0 (-1))
  else if text.cursorRow > 0 then do
    let line ← text.line? (text.cursorRow - 1)
    some (adjustCursor
      { text with cursorRow := text.cursorRow - 1, cursorCol := line.length } 0 (-1))
  else some (adjustCursor text 0 (-1))

/-- Source `move_to_next_line`. -/
def moveToNextLine (text : Textframe) : Textframe :=
  let moved :=
    if text.cursorRow + 1 < text.maxrow then { text with cursorRow := text.cursorRow + 1 }
    else text
  adjustCursor moved 0 1

/-- Source `move_to_last_line`. -/
def moveToLastLine (text : Textframe) : Textframe :=
  let moved :=
    if text.cursorRow > 0 then { text with cursorRow := text.cursorRow - 1 }
    else text
  adjustCursor moved 0 1

/-- Source `new_line_to_editor`: the row is split at the cursor and the rows
below it move down by one. -/
def newLineToEditor (text : Textframe) : Option Textframe := do
  let text := adjustCursor text 0 1
  let curline ← text.line? text.cursorRow
  if text.cursorCol < 0 ∨ text.cursorCol > curline.length then none
  else
    let r := text.cursorRow.toNat
    let capacity :=
      if text.maxrow + 1 ≥ text.maxrowCapacity then text.maxrow * 2 else text.maxrowCapacity
    let left := curline.take text.cursorCol.toNat
    let right := substr curline text.cursorCol (curline.length - text.cursorCol)
    let split :=
      { text with
        data := text.data.take r ++ left :: right :: text.data.drop (r + 1)
        maxrowCapacity := capacity }
    some (moveToPos split (text.cursorRow + 1) 0)

/-- Source `LineEdit_set_str`, which replaces the whole frame by one row. -/
def lineEditSetStr (str : Row) : Textframe where
  data := [str]
  cursorRow := 0
  cursorCol := 0
  maxrowCapacity := 1

/-- Source `clear_cur_line`. -/
def clearCurLine (text : Textframe) : Textframe :=
  if 0 ≤ text.cursorRow ∧ text.cursorRow < text.maxrow then
    { text with data := text.data.set text.cursorRow.toNat [], cursorCol := 0 }
  else text

/-- Source `move_cur_line_to_prev_line`. -/
def moveCurLineToPrevLine (text : Textframe) : Option Textframe :=
  if 0 < text.cursorRow ∧ text.cursorRow < text.maxrow then do
    let cur ← text.line? text.cursorRow
    let prev ← text.line? (text.cursorRow - 1)
    let r := text.cursorRow.toNat
    let joined := strcat prev cur prev.length cur.length
    let shorter :=
      { text with data := (text.data.set (r - 1) joined).eraseIdx r }
    some (moveToPos shorter (text.cursorRow - 1) (-1))
  else some text

end XEditor.Text
