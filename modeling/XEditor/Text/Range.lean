import XEditor.Text.Frame

/-!
# Extracting, deleting and inserting a range of text

The three range operations of `textframe.c`.  A range is given by its first and
last position, both included.  Every read of a row is checked, so the result
`none` means that the source reads outside the row array.

Each operation is a loop over row indices in the source and stays one here.
The loop of `textframe_delete` moves its own index forward; it carries a fuel
argument, and running out of fuel is reported as `none`.
-/

namespace XEditor.Text

/-! ## `textframe_extract` -/

/-- The first statement of the loop body of `textframe_extract`: a start column
behind the end of the start row moves to the next row. -/
def extractEnter (text : Textframe) (startLen i startRow startCol lineLen : Int) :
    Option (Int × Int × Int) :=
  if i = 0 ∧ startCol > startLen then
    (text.line? (startRow + 1)).map fun line => (startRow + 1, 0, (line.length : Int))
  else some (startRow, startCol, lineLen)

/-- The last statement of the loop body of `textframe_extract`: the length to
copy from the next row. -/
def extractNextLen (text : Textframe) (endCol endLen maxRow i startRow : Int) : Option Int :=
  if i < maxRow - 2 then (text.line? startRow).map fun line => (line.length : Int)
  else if endCol ≥ endLen ∧ i = maxRow - 2 then some 0
  else some (endCol + 1)

/-- The copying loop of `textframe_extract`, with the number of rows left to
copy, the row number `i` and the variables the loop body updates. -/
def extractLoop (text : Textframe) (startLen endCol endLen maxRow : Int) :
    Nat → (i startRow startCol lineLen : Int) → Option (List Row)
  | 0, _, _, _, _ => some []
  | left + 1, i, startRow, startCol, lineLen => do
    let (startRow, startCol, lineLen) ← extractEnter text startLen i startRow startCol lineLen
    let line ← text.line? startRow
    let nextLen ← extractNextLen text endCol endLen maxRow i (startRow + 1)
    let rest ← extractLoop text startLen endCol endLen maxRow left (i + 1) (startRow + 1) 0 nextLen
    some (substr line startCol lineLen :: rest)

/-- Source `textframe_extract`.  The source marks an empty range by a frame
with `maxrow = -1` and no rows. -/
def textframeExtract (text : Textframe) (startRow startCol endRow endCol : Int) :
    Option Textframe := do
  let start := textframeAdjustRC text startRow startCol 0 (-1)
  let stop := textframeAdjustRC text endRow endCol 1 1
  let startRow := if start.1 < 0 then 0 else start.1
  let endRow := if stop.1 < 0 ∨ stop.1 ≥ text.maxrow then text.maxrow - 1 else stop.1
  let startLine ← text.line? startRow
  let endLine ← text.line? endRow
  let startLen : Int := startLine.length
  let endLen : Int := endLine.length
  let maxRow := endRow - startRow + 1
  let maxRow := if start.2 > startLen then maxRow - 1 else maxRow
  let maxRow := if stop.2 ≥ endLen then maxRow + 1 else maxRow
  if maxRow ≤ 0 then
    some { data := [], cursorRow := 0, cursorCol := 0, maxrowCapacity := 0 }
  else
    let startCol := if start.2 < 0 then 0 else start.2
    let lineLen := if startRow = endRow then stop.2 - startCol + 1 else startLen - startCol
    let rows ← extractLoop text startLen stop.2 endLen maxRow maxRow.toNat 0 startRow
      startCol lineLen
    some { data := rows, cursorRow := 0, cursorCol := 0, maxrowCapacity := maxRow }

/-! ## `textframe_delete` -/

/-- The loop of `textframe_delete` over the rows of the text. -/
def deleteLoop (text : Textframe) (startRow startCol endRow endCol : Int) :
    Nat → (i : Int) → Option (List Row)
  | 0, i => if i < text.maxrow then none else some []
  | fuel + 1, i =>
    if i < text.maxrow then
      if i > startRow ∧ i < endRow then
        deleteLoop text startRow startCol endRow endCol fuel (i + 1)
      else do
        let curLine ← text.line? i
        if i < startRow ∨ i > endRow then
          let rest ← deleteLoop text startRow startCol endRow endCol fuel (i + 1)
          some (substr curLine 0 curLine.length :: rest)
        else
          let startLine ← text.line? startRow
          let endLine ← text.line? endRow
          let left := substr startLine 0 startCol
          -- The length is measured on the current row, not on the end row.
          let right := substr endLine (endCol + 1) (curLine.length - endCol - 1)
          let rest ← deleteLoop text startRow startCol endRow endCol fuel (endRow + 1)
          some (strcat left right left.length right.length :: rest)
    else some []

/-- Source `textframe_delete`. -/
def textframeDelete (text : Textframe) (startRow startCol endRow endCol : Int) :
    Option Textframe := do
  let start := textframeAdjustRC text startRow startCol 0 (-1)
  let stop := textframeAdjustRC text endRow endCol 1 1
  let startRow := if start.1 < 0 then 0 else start.1
  let startCol := if start.2 < 0 then 0 else start.2
  let endRow := if stop.1 ≥ text.maxrow then text.maxrow - 1 else stop.1
  let endCol := if stop.1 ≥ text.maxrow then -1 else stop.2
  let rows ← deleteLoop text startRow startCol endRow endCol text.data.length 0
  some { data := rows, cursorRow := 0, cursorCol := 0, maxrowCapacity := rows.length }

/-! ## `textframe_insert` -/

/-- One iteration of the loop of `textframe_insert`: row `i` of the result, and
the cursor when this iteration sets it. -/
def insertLine (text inText : Textframe) (inMaxrow startRow startCol i : Int) :
    Option (Row × Option (Int × Int)) :=
  if i < startRow then do
    let line ← text.line? i
    some (substr line 0 line.length, none)
  else if startRow < i ∧ i < startRow + inMaxrow - 1 then do
    let line ← inText.line? (i - startRow)
    some (substr line 0 line.length, none)
  else if i = startRow ∨ i = startRow + inMaxrow - 1 then do
    let line ← text.line? startRow
    let left := substr line 0 startCol
    let right := substr (line.drop startCol.toNat) 0 (line.length - startCol)
    if inMaxrow = 1 then do
      let first ← inText.line? 0
      let curlineLeft := strcat left first left.length first.length
      some (strcat curlineLeft right curlineLeft.length right.length,
        some (i, curlineLeft.length))
    else if i = startRow then do
      let first ← inText.line? 0
      some (strcat left first left.length first.length, none)
    else do
      let last ← inText.line? (inMaxrow - 1)
      some (strcat last right last.length right.length, some (i, last.length))
  else do
    let line ← text.line? (i - (inMaxrow - 1))
    some (substr line 0 line.length, none)

/-- The loop of `textframe_insert`, with the number of rows left to build. -/
def insertLoop (text inText : Textframe) (inMaxrow startRow startCol : Int) :
    Nat → (i : Int) → (cursor : Int × Int) → Option (List Row × (Int × Int))
  | 0, _, cursor => some ([], cursor)
  | left + 1, i, cursor => do
    let (line, moved) ← insertLine text inText inMaxrow startRow startCol i
    let (rows, cursor) ←
      insertLoop text inText inMaxrow startRow startCol left (i + 1) (moved.getD cursor)
    some (line :: rows, cursor)

/-- Source `textframe_insert`.  A frame without rows is the one
`textframe_extract` marks with `maxrow = -1`. -/
def textframeInsert (text inText : Textframe) (startRow startCol : Int) :
    Option Textframe := do
  let start := textframeAdjustRC text startRow startCol 0 1
  let inMaxrow : Int := if inText.data = [] then -1 else inText.maxrow
  let (rows, cursor) ←
    insertLoop text inText inMaxrow start.1 start.2 (text.maxrow + inMaxrow - 1).toNat 0 (0, 0)
  some { data := rows, cursorRow := cursor.1, cursorCol := cursor.2, maxrowCapacity := 0 }

end XEditor.Text
