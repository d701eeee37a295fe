import XEditor.Text.Cursor
import XEditor.Text.Extract

/-!
# Inserting a text

The loop of `textframe_insert` produces one row of the result per iteration.
Its iterations fall into the rows above the insertion, the inserted rows and
the rows below; together they glue the inserted text between the two halves of
the document.
-/

namespace XEditor.Text

open List Option Lines Textframe

section

variable {text inText : Textframe} {inMaxrow startRow startCol : Int}

/-- The loop runs its iterations one part after the other. -/
theorem insertLoop_add (first second : Nat) (i : Int) (cursor : Int × Int) :
    insertLoop text inText inMaxrow startRow startCol (first + second) i cursor =
      (insertLoop text inText inMaxrow startRow startCol first i cursor).bind fun upper =>
        (insertLoop text inText inMaxrow startRow startCol second (i + first) upper.2).map
          fun lower => (upper.1 ++ lower.1, lower.2) := by
  induction first generalizing i cursor with
  | zero => simp [insertLoop]
  | succ first ih =>
    rw [show first + 1 + second = (first + second) + 1 by omega, insertLoop, insertLoop]
    cases insertLine text inText inMaxrow startRow startCol i with
    | none => rfl
    | some result =>
      obtain ⟨line, moved⟩ := result
      simp only [bind_eq_bind, bind_some, ih, bind_assoc]
      congr 1
      funext upper
      rw [show i + 1 + (first : Int) = i + ((first + 1 : Nat) : Int) by omega]
      cases insertLoop text inText inMaxrow startRow startCol second
        (i + ((first + 1 : Nat) : Int)) upper.2 <;> rfl

/-- A stretch of iterations that copy rows and leave the cursor alone. -/
theorem insertLoop_copies {rows : List Row} {i : Nat} (cursor : Int × Int)
    (copies : ∀ k line, rows[k]? = some line →
      insertLine text inText inMaxrow startRow startCol ((i + k : Nat) : Int) =
        some (line, none)) :
    insertLoop text inText inMaxrow startRow startCol rows.length i cursor =
      some (rows, cursor) := by
  induction rows generalizing i with
  | nil => rfl
  | cons line rows ih =>
    have first := copies 0 line rfl
    have rest := ih (i := i + 1) fun k other read => by
      have := copies (k + 1) other (by simpa using read)
      rw [show i + 1 + k = i + (k + 1) by omega]
      exact this
    rw [Nat.add_zero] at first
    rw [Int.natCast_add, Int.natCast_one] at rest
    rw [length_cons, insertLoop, first]
    simp only [bind_eq_bind, bind_some, getD_none, rest]

/-- A single iteration. -/
theorem insertLoop_one {i : Int} {line : Row} {moved : Option (Int × Int)}
    (cursor : Int × Int)
    (produces : insertLine text inText inMaxrow startRow startCol i = some (line, moved)) :
    insertLoop text inText inMaxrow startRow startCol 1 i cursor =
      some ([line], moved.getD cursor) := by
  rw [insertLoop, produces]
  rfl

end

/-! ## The kinds of iterations -/

section

variable {text inText : Textframe} {line : Row} {r c : Nat}

theorem insertLine_above {i : Nat} {other : Row} (inMaxrow : Int) (above : i < r)
    (read : text.data[i]? = some other) :
    insertLine text inText inMaxrow r c i = some (other, none) := by
  rw [insertLine, if_pos (by omega), line?_natCast, read]
  simp

theorem insertLine_below {k m : Nat} {other : Row} (rows : 0 < m)
    (read : text.data[r + 1 + k]? = some other) :
    insertLine text inText m r c ((r + m + k : Nat) : Int) = some (other, none) := by
  rw [insertLine, if_neg (by omega), if_neg (by omega), if_neg (by omega),
    show ((r + m + k : Nat) : Int) - ((m : Int) - 1) = ((r + 1 + k : Nat) : Int) by omega,
    line?_natCast, read]
  simp

theorem insertLine_inside {k m : Nat} {other : Row} (first : 0 < k) (last : k + 1 < m)
    (read : inText.data[k]? = some other) :
    insertLine text inText m r c ((r + k : Nat) : Int) = some (other, none) := by
  rw [insertLine, if_neg (by omega), if_pos (by omega),
    show ((r + k : Nat) : Int) - (r : Int) = (k : Int) by omega,
    line?_natCast, read]
  simp

private theorem left_eq (line : Row) (c : Nat) : substr line 0 (c : Int) = line.take c := by
  have := substr_eq line 0 c
  exact this

private theorem right_eq (line : Row) {c : Nat} (bound : c ≤ line.length) :
    substr (line.drop (c : Int).toNat) 0 (line.length - (c : Int)) = line.drop c := by
  have whole := substr_zero_length (line.drop c)
  rw [length_drop, Int.ofNat_sub bound] at whole
  exact whole

theorem insertLine_only {inserted : Row} (read : text.data[r]? = some line)
    (bound : c ≤ line.length) (readIn : inText.data[0]? = some inserted) :
    insertLine text inText 1 r c r =
      some (line.take c ++ inserted ++ line.drop c,
        some ((r : Int), ((line.take c ++ inserted).length : Int))) := by
  have readZero : inText.line? 0 = some inserted := by
    rw [← readIn, ← line?_natCast, Int.natCast_zero]
  rw [insertLine, if_neg (by omega), if_neg (by omega), if_pos (by omega), line?_natCast, read]
  simp only [bind_eq_bind, bind_some, if_true, left_eq, right_eq line bound,
    readZero, strcat_length]

variable {m : Nat} {inserted : Row} (several : 1 < m) (read : text.data[r]? = some line)
include several read

theorem insertLine_first (readIn : inText.data[0]? = some inserted) :
    insertLine text inText m r c r = some (line.take c ++ inserted, none) := by
  have notOne : ¬ (m : Int) = 1 := by omega
  have readZero : inText.line? 0 = some inserted := by
    rw [← readIn, ← line?_natCast, Int.natCast_zero]
  rw [insertLine, if_neg (by omega), if_neg (by omega), if_pos (by omega), line?_natCast, read]
  simp only [bind_eq_bind, bind_some, if_neg notOne, if_true, left_eq, readZero, strcat_length]

theorem insertLine_last (bound : c ≤ line.length) (readIn : inText.data[m - 1]? = some inserted) :
    insertLine text inText m r c ((r + (m - 1) : Nat) : Int) =
      some (inserted ++ line.drop c,
        some (((r + (m - 1) : Nat) : Int), (inserted.length : Int))) := by
  have notOne : ¬ (m : Int) = 1 := by omega
  have notStart : ¬ ((r + (m - 1) : Nat) : Int) = r := by omega
  have readLast : inText.line? ((m : Int) - 1) = some inserted := by
    rw [← readIn, ← line?_natCast, Int.ofNat_sub (by omega), Int.natCast_one]
  rw [insertLine, if_neg (by omega), if_neg (by omega), if_pos (by omega), line?_natCast, read]
  simp only [bind_eq_bind, bind_some, if_neg notOne, if_neg notStart,
    right_eq line bound, readLast, strcat_length]

end

/-! ## What is inserted -/

section

variable {text inText : Textframe} {line : Row} {r c : Nat}

/-- The cursor position at the end of a text. -/
def endPosition (lines : List Row) : Int × Int :=
  (((lines.length - 1 : Nat) : Int), ((lines.getLast?.getD []).length : Int))

theorem endPosition_concat (above : List Row) (before : Row) :
    endPosition (above ++ [before]) = ((above.length : Int), (before.length : Int)) := by
  simp [endPosition]

theorem endPosition_append (above : List Row) {lines : List Row} (nonempty : lines ≠ []) :
    endPosition (above ++ lines) =
      ((above.length : Int) + (endPosition lines).1, (endPosition lines).2) := by
  rcases eq_nil_or_concat' lines with rfl | ⟨start, before, rfl⟩
  · exact absurd rfl nonempty
  · rw [← append_assoc, endPosition_concat, endPosition_concat, length_append, Int.natCast_add]

private theorem loop_above (inMaxrow : Int) (bound : r ≤ text.data.length) :
    insertLoop text inText inMaxrow r c r 0 (0, 0) =
      some (text.data.take r, (0, 0)) := by
  have copied : insertLoop text inText inMaxrow r c (text.data.take r).length ((0 : Nat) : Int)
      (0, 0) = some (text.data.take r, (0, 0)) := by
    refine insertLoop_copies (0, 0) fun k other read => ?_
    rw [Nat.zero_add]
    have inside : k < r := by
      have := (List.getElem?_eq_some_iff.mp read).1
      rw [length_take] at this
      omega
    rw [getElem?_take_of_lt inside] at read
    exact insertLine_above inMaxrow inside read
  rw [length_take, Nat.min_eq_left bound] at copied
  exact copied

private theorem loop_below {m : Nat} (rows : 0 < m) (cursor : Int × Int) :
    insertLoop text inText m r c (text.data.length - (r + 1)) ((r + m : Nat) : Int) cursor =
      some (text.data.drop (r + 1), cursor) := by
  rw [← length_drop]
  refine insertLoop_copies cursor fun k other read => ?_
  rw [getElem?_drop] at read
  exact insertLine_below rows read

/-- The iterations at the inserted rows put the inserted text between the two
halves of the row and leave the cursor behind it. -/
private theorem loop_inserted (read : text.data[r]? = some line) (bound : c ≤ line.length)
    (nonempty : inText.data ≠ []) :
    insertLoop text inText inText.data.length r c inText.data.length r (0, 0) =
      some (glue (glue [line.take c] inText.data) [line.drop c],
        ((r : Int) + (endPosition (glue [line.take c] inText.data)).1,
          (endPosition (glue [line.take c] inText.data)).2)) := by
  rcases singleton_or_two_ends nonempty with ⟨inserted, rows⟩ | ⟨first, middle, last, rows⟩
  · have readOnly : inText.data[0]? = some inserted := by
      rw [rows]
      rfl
    have only := insertLine_only read bound readOnly
    rw [rows, length_singleton, Int.natCast_one, insertLoop_one (0, 0) only,
      glue_singleton_singleton, glue_singleton_singleton]
    simp [endPosition]
  · have length : inText.data.length = middle.length + 2 := by simp [rows]
    have readFirst : inText.data[0]? = some first := by
      rw [rows]
      rfl
    have readLast : inText.data[middle.length + 2 - 1]? = some last := by
      simp [rows]
    have firstLine := insertLine_first (c := c) (m := middle.length + 2) (by omega) read readFirst
    have lastLine := insertLine_last (m := middle.length + 2) (by omega) read bound readLast
    have middleLines : insertLoop text inText (middle.length + 2 : Nat) r c middle.length
        ((r + 1 : Nat) : Int) (0, 0) = some (middle, (0, 0)) := by
      refine insertLoop_copies (0, 0) fun k other readMiddle => ?_
      have inside := (List.getElem?_eq_some_iff.mp readMiddle).1
      rw [show r + 1 + k = r + (k + 1) by omega]
      refine insertLine_inside (by omega) (by omega) ?_
      rw [rows, getElem?_cons_succ, getElem?_append_left inside]
      exact readMiddle
    have whole : glue (glue [line.take c] inText.data) [line.drop c] =
        (line.take c ++ first) :: (middle ++ [last ++ line.drop c]) := by
      rw [rows, glue_singleton_cons, ← cons_append, glue_concat_singleton]
      rfl
    have position : endPosition (glue [line.take c] inText.data) =
        (((middle.length + 1 : Nat) : Int), (last.length : Int)) := by
      rw [rows, glue_singleton_cons, ← cons_append, endPosition_concat, length_cons]
    rw [Int.natCast_add r 1, Int.natCast_one] at middleLines
    rw [show r + (middle.length + 2 - 1) = r + 1 + middle.length by omega,
      Int.natCast_add (r + 1) middle.length, Int.natCast_add r 1, Int.natCast_one] at lastLine
    rw [whole, position, length, show middle.length + 2 = 1 + (middle.length + 1) by omega,
      insertLoop_add, show 1 + (middle.length + 1) = middle.length + 2 by omega,
      insertLoop_one (0, 0) firstLine]
    simp only [bind_some, getD_none, insertLoop_add middle.length 1,
      Int.natCast_one, middleLines, insertLoop_one (0, 0) lastLine, map_some,
      getD_some]
    simp only [cons_append, nil_append, some.injEq, Prod.mk.injEq, true_and, and_true]
    omega

/-- A text in two parts, with the cursor between them. -/
def gluedText (front behind : List Row) : Textframe where
  data := glue front behind
  cursorRow := (endPosition front).1
  cursorCol := (endPosition front).2
  maxrowCapacity := 0

/-- Inserting a text glues it between the two halves of the document and leaves
the cursor at its end. -/
theorem textframeInsert_eq (read : text.data[r]? = some line) (col : Int)
    (nonempty : inText.data ≠ []) :
    textframeInsert text inText r col =
      some (gluedText (glue (text.data.take r ++ [line.take (cursorColumn line col)]) inText.data)
        (line.drop (cursorColumn line col) :: text.data.drop (r + 1))) := by
  have rBound := (List.getElem?_eq_some_iff.mp read).1
  have rows : 0 < inText.data.length := length_pos_iff.mpr nonempty
  have total : (text.maxrow + inText.maxrow - 1).toNat =
      r + (inText.data.length + (text.data.length - (r + 1))) := by
    simp only [maxrow]
    omega
  have halves : glue
      (glue (text.data.take r ++ [line.take (cursorColumn line col)]) inText.data)
        (line.drop (cursorColumn line col) :: text.data.drop (r + 1)) =
      text.data.take r ++
        (glue (glue [line.take (cursorColumn line col)] inText.data)
          [line.drop (cursorColumn line col)] ++ text.data.drop (r + 1)) := by
    rw [glue_append_left _ _ (by simp), glue_append_left _ _ (glue_ne_nil _ _),
      ← glue_append_right _ _ (by simp), singleton_append]
  have position := endPosition_append (text.data.take r)
    (glue_ne_nil [line.take (cursorColumn line col)] inText.data)
  rw [length_take, Nat.min_eq_left (Nat.le_of_lt rBound)] at position
  rw [gluedText, halves, glue_append_left _ _ (by simp), position]
  simp only [textframeInsert, textframeAdjustRC_of_line read, adjustColumn_cursor,
    if_neg nonempty, total, insertLoop_add r, insertLoop_add inText.data.length,
    loop_above inText.maxrow (Nat.le_of_lt rBound), bind_eq_bind, bind_some,
    Int.zero_add]
  have inserted := loop_inserted read (cursorColumn_le line col) nonempty
  have below (cursor : Int × Int) :
      insertLoop text inText inText.data.length r (cursorColumn line col)
        (text.data.length - (r + 1)) ((r : Int) + inText.data.length) cursor =
      some (text.data.drop (r + 1), cursor) := by
    exact loop_below rows cursor
  simp only [maxrow, inserted, below, bind_some, map_some]

theorem gluedText_located {first second : List Row} (nonempty : first ≠ [])
    (secondNonempty : second ≠ []) :
    ∃ above left right below, Located (gluedText first second) above left right below ∧
      above ++ [left] = first ∧ right :: below = second := by
  rcases eq_nil_or_concat' first with rfl | ⟨above, left, rfl⟩
  · exact absurd rfl nonempty
  cases second with
  | nil => exact absurd rfl secondNonempty
  | cons right below =>
    refine ⟨above, left, right, below, ?_, rfl, rfl⟩
    rw [gluedText, glue_concat_cons, endPosition_concat]
    exact ⟨rfl, rfl, rfl⟩

/-- `textframe_insert` puts the text in at the aligned position and leaves the
cursor right behind it: what stands in front of the cursor is the document in
front of the position and the inserted text. -/
theorem textframeInsert_pastes (read : text.data[r]? = some line) (col : Int)
    (nonempty : inText.data ≠ []) :
    ∃ pasted above left right below,
      textframeInsert text inText r col = some pasted ∧
      joinLines lineFeed pasted.data =
        joinLines lineFeed (text.data.take r ++ [line.take (cursorColumn line col)]) ++
          joinLines lineFeed inText.data ++
          joinLines lineFeed (line.drop (cursorColumn line col) :: text.data.drop (r + 1)) ∧
      pasted.maxrow = text.maxrow + inText.maxrow - 1 ∧
      Located pasted above left right below ∧
      joinLines lineFeed (above ++ [left]) =
        joinLines lineFeed (text.data.take r ++ [line.take (cursorColumn line col)]) ++
          joinLines lineFeed inText.data := by
  have bound := (List.getElem?_eq_some_iff.mp read).1
  have front : text.data.take r ++ [line.take (cursorColumn line col)] ≠ [] := by simp
  have rest : line.drop (cursorColumn line col) :: text.data.drop (r + 1) ≠ [] := by simp
  obtain ⟨above, left, right, below, located, before, -⟩ :=
    gluedText_located (glue_ne_nil (text.data.take r ++ [line.take (cursorColumn line col)])
      inText.data) rest
  refine ⟨_, above, left, right, below, textframeInsert_eq read col nonempty, ?_, ?_, located, ?_⟩
  · rw [gluedText, joinLines_glue _ (glue_ne_nil _ _) rest, joinLines_glue _ front nonempty]
  · have first := length_glue front nonempty
    have whole := length_glue (glue_ne_nil
      (text.data.take r ++ [line.take (cursorColumn line col)]) inText.data) rest
    simp only [maxrow, gluedText]
    rw [length_append, length_take, length_singleton] at first
    rw [length_cons, length_drop] at whole
    omega
  · rw [before, joinLines_glue _ front nonempty]

end

/-- The two rows `b` and `c` go into the row `ad`. -/
theorem insert_twoRows :
    ∃ pasted above left right below,
      textframeInsert (lineEditSetStr [97, 100]) ⟨[[98], [99]], 0, 0, 2⟩ ((0 : Nat) : Int) 1 =
        some pasted ∧
      joinLines lineFeed pasted.data = [97, 98, 10, 99, 100] ∧ pasted.maxrow = 2 ∧
      Located pasted above left right below ∧
      joinLines lineFeed (above ++ [left]) = [97, 98, 10, 99] := by
  have read : (lineEditSetStr [97, 100]).data[0]? = some [97, 100] := rfl
  have rows : (⟨[[98], [99]], 0, 0, 2⟩ : Textframe).data ≠ [] := by decide
  exact textframeInsert_pastes read 1 rows

/-- Inserting at the cursor leaves it behind the inserted text. -/
theorem Located.textframeInsert {text : Textframe} {above below : List Row} {left right : Row}
    (located : Located text above left right below) {inText : Textframe}
    (nonempty : inText.data ≠ []) :
    ∃ next col front last, Text.textframeInsert text inText text.cursorRow text.cursorCol =
        some next ∧
      col = cursorColumn (left ++ right) left.length ∧
      glue (above ++ [(left ++ right).take col]) inText.data = front ++ [last] ∧
      Located next front last ((left ++ right).drop col) below := by
  have inserted := textframeInsert_eq located.getElem?_row left.length nonempty
  have rowsAbove : text.data.take above.length = above := by
    rw [located.data_eq, take_left]
  have rowsBelow : text.data.drop (above.length + 1) = below := by
    rw [located.data_eq, ← drop_drop, drop_left]
    rfl
  rw [rowsAbove, rowsBelow] at inserted
  rcases eq_nil_or_concat' (glue (above ++ [(left ++ right).take
      (cursorColumn (left ++ right) left.length)]) inText.data) with empty | ⟨front, last, split⟩
  · exact absurd empty (glue_ne_nil _ _)
  · rw [gluedText, split, glue_concat_cons, endPosition_concat] at inserted
    rw [located.row_eq, located.col_eq]
    exact ⟨_, _, front, last, inserted, rfl, split, ⟨rfl, rfl, rfl⟩⟩

/-- An insertion does not read the cursor of the text. -/
theorem textframeInsert_with_cursor (text inText : Textframe) (row col r c : Int) :
    textframeInsert { text with cursorRow := row, cursorCol := col } inText r c =
      textframeInsert text inText r c := by
  have loop (inMaxrow startRow startCol : Int) (left : Nat) (i : Int) (cursor : Int × Int) :
      insertLoop { text with cursorRow := row, cursorCol := col } inText inMaxrow startRow
        startCol left i cursor =
      insertLoop text inText inMaxrow startRow startCol left i cursor := by
    induction left generalizing i cursor with
    | zero => rfl
    | succ left ih =>
      simp only [insertLoop, ih]
      rfl
  rw [textframeInsert]
  simp only [loop]
  rfl

end XEditor.Text
