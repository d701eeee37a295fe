import XEditor.Edit.TextEdit
import XEditor.Text.Insert

/-!
# Cutting a selection and pasting it back

The three range operations are put together: a selection is extracted, deleted
and inserted again.  The result is the original text exactly when all three
agree on what was selected and the insertion takes place where the deletion
did.  This is decided first for an arbitrary insertion column, then for the
aligned start of the selection and for the cursor the keyboard handler leaves
behind.
-/

namespace XEditor.Edit

open List Option Text Lines Pairing

section

variable {text : Textframe} (selection : Selection text)

/-- Extract a selection, delete it and insert it at a column of the row the
deletion leaves. -/
def pasteAt (col : Int) : Option (List Row) := do
  let clip ← textframeExtract text selection.startRow selection.startCol selection.endRow
    selection.endCol
  let rest ← textframeDelete text selection.startRow selection.startCol selection.endRow
    selection.endCol
  let restored ← textframeInsert rest clip selection.startRow col
  some restored.data

/-- The row `textframe_delete` leaves in the place of the selection. -/
def joined : Row :=
  joinedLine selection.startLine selection.endLine selection.fromCol selection.toCol

/-- The bytes behind the selection that an insertion at a column skips. -/
def skipped (col : Int) : Row :=
  ((joined selection).drop selection.fromCol).take
    (cursorColumn (joined selection) col - selection.fromCol)

/-- The selection ends before the end of its last row. -/
def EndsInside : Prop :=
  selection.toCol < selection.endLine.length

/-- Deleting the selection keeps everything behind it. -/
def KeepsTail : Prop :=
  selection.endLine.length ≤ selection.startLine.length ∨
    selection.endLine.length ≤ selection.toCol + 1

instance : Decidable (EndsInside selection) :=
  inferInstanceAs (Decidable (_ < _))

instance : Decidable (KeepsTail selection) :=
  inferInstanceAs (Decidable (_ ∨ _))

/-- The rows `textframe_delete` leaves. -/
def cutRows : List Row :=
  text.data.take selection.startRow ++
    joined selection :: text.data.drop (selection.endRow + 1)

/-- These rows with a text inserted at a column of the joined row. -/
def pasted (col : Int) (rows : List Row) : List Row :=
  glue
    (glue (text.data.take selection.startRow ++
      [(joined selection).take (cursorColumn (joined selection) col)]) rows)
    ((joined selection).drop (cursorColumn (joined selection) col) ::
      text.data.drop (selection.endRow + 1))

theorem length_take_startRow : (text.data.take selection.startRow).length = selection.startRow := by
  rw [length_take, Nat.min_eq_left (Nat.le_of_lt selection.startRow_lt)]

theorem cutRows_getElem? : (cutRows selection)[selection.startRow]? = some (joined selection) := by
  have above := length_take_startRow selection
  rw [cutRows, getElem?_append_right (by omega), above, Nat.sub_self, getElem?_cons_zero]

theorem cutRows_take :
    (cutRows selection).take selection.startRow = text.data.take selection.startRow := by
  have above := length_take_startRow selection
  rw [cutRows, take_append_of_le_length (by omega), take_of_length_le (by omega)]

theorem cutRows_drop :
    (cutRows selection).drop (selection.startRow + 1) =
      text.data.drop (selection.endRow + 1) := by
  have above := length_take_startRow selection
  rw [cutRows, drop_append, drop_eq_nil_of_le (by omega), above, Nat.add_sub_cancel_left]
  rfl

theorem textframeDelete_eq_cutRows :
    textframeDelete text selection.startRow selection.startCol selection.endRow
        selection.endCol = some (deleted (cutRows selection)) :=
  textframeDelete_eq selection

/-- What is extracted has a row. -/
theorem clip_ne_nil {clip : Textframe}
    (extracted : textframeExtract text selection.startRow selection.startCol
      selection.endRow selection.endCol = some clip) : clip.data ≠ [] := by
  have nonempty : text.data ≠ [] := by
    have := selection.endRow_lt
    intro empty
    rw [empty, length_nil] at this
    omega
  have rows_le : (selection.startRow : Int) ≤ selection.endRow := by
    exact_mod_cast selection.rows_le
  exact textframeExtract_ne_nil nonempty rows_le (Int.natCast_nonneg _) extracted

/-- Pasting back as a function of what was extracted. -/
theorem pasteAt_eq (col : Int) :
    pasteAt selection col =
      ((textframeExtract text selection.startRow selection.startCol selection.endRow
        selection.endCol).map Textframe.data).map (pasted selection col) := by
  rw [pasteAt, textframeDelete_eq_cutRows]
  cases extracted : textframeExtract text selection.startRow selection.startCol
      selection.endRow selection.endCol with
  | none => rfl
  | some clip =>
    have inserted : textframeInsert (deleted (cutRows selection)) clip selection.startRow col =
        some _ :=
      textframeInsert_eq (cutRows_getElem? selection) col (clip_ne_nil selection extracted)
    simp only [bind_eq_bind, bind_some, map_some, inserted, deleted_data,
      cutRows_take, cutRows_drop, pasted, gluedText]

variable {col : Int}

/-- A restored text has the right number of rows only if the selection ended
inside its last row. -/
theorem endsInside_of_pasteAt (restored : pasteAt selection col = some text.data) :
    EndsInside selection := by
  rw [pasteAt_eq, Option.map_map, map_eq_some_iff] at restored
  obtain ⟨clip, extracted, rows_eq⟩ := restored
  have clipLength := textframeExtract_length selection extracted
  have length := congrArg List.length rows_eq
  rw [Function.comp_apply, pasted] at length
  have inner := length_glue (concat_ne_nil
    ((joined selection).take (cursorColumn (joined selection) col))
    (text.data.take selection.startRow)) (clip_ne_nil selection extracted)
  have outer := length_glue (glue_ne_nil (text.data.take selection.startRow ++
      [(joined selection).take (cursorColumn (joined selection) col)]) clip.data)
    (cons_ne_nil ((joined selection).drop (cursorColumn (joined selection) col))
      (text.data.drop (selection.endRow + 1)))
  rw [length_append, length_take, length_singleton, clipLength, Selection.extractRows,
    extractedRows] at inner
  rw [length_cons, length_drop] at outer
  by_contra outside
  rw [EndsInside] at outside
  rw [if_neg outside] at inner
  omega

/-- A restored text has the right number of bytes only if the deletion kept the
tail of the last row. -/
theorem keepsTail_of_pasted (restored : pasted selection col selection.selected = text.data) :
    KeepsTail selection := by
  have whole := congrArg (fun rows => (List.flatten rows).length)
    (restored.trans selection.data_eq_glue)
  have cut := congrArg List.length
    (take_append_drop (cursorColumn (joined selection) col) (joined selection))
  have fromCol_le := selection.fromCol_le
  simp only [pasted, flatten_glue, Selection.before, Selection.behind, flatten_append,
    flatten_cons, flatten_nil, append_nil, length_append,
    length_take, length_drop] at whole
  have length : (joined selection).length = selection.fromCol +
      min (selection.startLine.length - (selection.toCol + 1))
        (selection.endLine.length - (selection.toCol + 1)) := by
    rw [joined, joinedLine, length_append, length_take, length_take,
      length_drop, Nat.min_eq_left fromCol_le]
  rw [length_append, length_take, length_drop] at cut
  rw [KeepsTail]
  omega

theorem joined_eq (tail : KeepsTail selection) :
    joined selection = selection.startLine.take selection.fromCol ++
      selection.endLine.drop (selection.toCol + 1) :=
  (joinedLine_complete_iff _ _ _ _).mpr tail

/-- With the tail kept, the joined row is cut at the aligned start into what
stands before and behind the selection. -/
theorem joined_take (tail : KeepsTail selection) :
    (joined selection).take selection.fromCol = selection.startLine.take selection.fromCol := by
  have length := length_take_of_le selection.fromCol_le
  rw [joined_eq selection tail, take_append_of_le_length (by omega), take_of_length_le (by omega)]

theorem joined_drop (tail : KeepsTail selection) :
    (joined selection).drop selection.fromCol =
      selection.endLine.drop (selection.toCol + 1) := by
  have length := length_take_of_le selection.fromCol_le
  rw [joined_eq selection tail, drop_append, length, Nat.sub_self,
    drop_eq_nil_of_le (by omega), drop_zero, nil_append]

/-- The selected text inserted behind the aligned start gives the text back
exactly when it commutes with the bytes the insertion skips. -/
theorem pasted_selected_iff (tail : KeepsTail selection)
    (behind : selection.fromCol ≤ cursorColumn (joined selection) col) :
    pasted selection col selection.selected = text.data ↔
      glue [skipped selection col] selection.selected =
        glue selection.selected [skipped selection col] := by
  have front : (joined selection).take (cursorColumn (joined selection) col) =
      selection.startLine.take selection.fromCol ++ skipped selection col := by
    rw [skipped, ← joined_take selection tail, ← take_add, Nat.add_sub_cancel' behind]
  have back : skipped selection col ++
      (joined selection).drop (cursorColumn (joined selection) col) =
        selection.endLine.drop (selection.toCol + 1) := by
    have rest : (joined selection).drop (cursorColumn (joined selection) col) =
        ((joined selection).drop selection.fromCol).drop
          (cursorColumn (joined selection) col - selection.fromCol) := by
      rw [drop_drop, Nat.add_sub_cancel' behind]
    rw [← joined_drop selection tail, rest]
    exact take_append_drop _ _
  have whole := selection.data_eq_glue
  rw [Selection.before, Selection.behind, ← back] at whole
  rw [pasted, front]
  exact Iff.trans (by rw [← whole]) (glue_shift_iff (text.data.take selection.startRow)
    (selection.startLine.take selection.fromCol) (skipped selection col)
    ((joined selection).drop (cursorColumn (joined selection) col))
    (text.data.drop (selection.endRow + 1)) selection.selected_ne_nil)

/-- Pasting back at a column behind the aligned start restores the text exactly
when the selection ends inside its last row, the deletion keeps the tail of that
row, and the selected text commutes with the bytes the insertion skips. -/
theorem pasteAt_restores_iff (behind : selection.fromCol ≤ cursorColumn (joined selection) col) :
    pasteAt selection col = some text.data ↔
      EndsInside selection ∧ KeepsTail selection ∧
        glue [skipped selection col] selection.selected =
          glue selection.selected [skipped selection col] := by
  constructor
  · intro restored
    have inside := endsInside_of_pasteAt selection restored
    rw [pasteAt_eq, textframeExtract_eq_selected selection inside, map_some, some.injEq] at restored
    have tail := keepsTail_of_pasted selection restored
    exact ⟨inside, tail, (pasted_selected_iff selection tail behind).mp restored⟩
  · rintro ⟨inside, tail, commute⟩
    rw [pasteAt_eq, textframeExtract_eq_selected selection inside, map_some,
      (pasted_selected_iff selection tail behind).mpr commute]

theorem fromCol_le_joined : selection.fromCol ≤ (joined selection).length := by
  rw [joined, joinedLine, length_append, length_take, Nat.min_eq_left selection.fromCol_le]
  exact Nat.le_add_right _ _

/-! ## At the aligned start -/

theorem cursorColumn_fromCol :
    cursorColumn (joined selection) selection.fromCol =
      if insideHan (joined selection) selection.fromCol then selection.fromCol + 1
      else selection.fromCol := by
  rw [cursorColumn, clampColumn_of_le (fromCol_le_joined selection)]

/-- A byte that commutes with the selected text stands at its front. -/
theorem startLine_getElem?_of_commute (inside : EndsInside selection) {byte : UInt8}
    (commute : glue [[byte]] selection.selected = glue selection.selected [[byte]]) :
    selection.startLine[selection.fromCol]? = some byte := by
  rcases (glue_singleton_comm_iff selection.selected_ne_nil).mp commute with
    empty | ⟨line, selected_eq, commute⟩
  · exact absurd empty (cons_ne_nil _ _)
  by_cases sameRow : selection.startRow = selection.endRow
  · have bound : selection.toCol < selection.startLine.length := by
      rw [← selection.endLine_eq_startLine sameRow]
      exact inside
    have ordered := selection.fromCol_le_toCol sameRow
    rw [Selection.selected, if_pos sameRow, cons.injEq] at selected_eq
    rw [← selected_eq.1] at commute
    have head := congrArg (fun bytes : Row => bytes[0]?) commute
    simp only [singleton_append, getElem?_cons_zero] at head
    rw [getElem?_append_left, getElem?_take_of_lt, getElem?_drop, Nat.add_zero] at head
    · exact head.symm
    · omega
    · rw [length_take, length_drop]
      omega
  · rw [Selection.selected, if_neg sameRow, cons.injEq] at selected_eq
    exact absurd selected_eq.2 (by simp)

/-- The insertion at the aligned start meets the place of the deletion unless
the bytes joined there form a new Han character. -/
theorem pasteAt_fromCol_restores_iff :
    pasteAt selection selection.fromCol = some text.data ↔
      EndsInside selection ∧ KeepsTail selection ∧
        insideHan (joined selection) selection.fromCol = false := by
  have behind : selection.fromCol ≤ cursorColumn (joined selection) selection.fromCol := by
    rw [cursorColumn_fromCol]
    split <;> omega
  rw [pasteAt_restores_iff selection behind]
  refine and_congr_right fun inside => and_congr_right fun tail => ?_
  cases split : insideHan (joined selection) selection.fromCol with
  | false =>
    rw [skipped, cursorColumn_fromCol, split, if_neg Bool.false_ne_true, Nat.sub_self]
    simp only [iff_true]
    exact (glue_singleton_comm_iff selection.selected_ne_nil).mpr (.inl rfl)
  | true =>
    refine iff_of_false ?_ (by decide)
    intro commute
    rw [insideHan, Bool.and_eq_true, decide_eq_true_iff] at split
    obtain ⟨byte, byte_eq, han⟩ := isHanAt_eq_true_iff.mp split.1
    have skipped_eq : skipped selection selection.fromCol = [byte] := by
      rw [skipped, cursorColumn_fromCol, insideHan, split.1, Bool.true_and,
        decide_eq_true split.2, if_pos rfl, Nat.add_sub_cancel_left, take_one,
        head?_drop, byte_eq]
      rfl
    rw [skipped_eq] at commute
    have front := startLine_getElem?_of_commute selection inside commute
    have aligned := insideHan_startColumn selection.startLine selection.startCol
    rw [← selection.fromCol_eq, insideHan, isHanAt, front, any_some, han,
      Bool.true_and, decide_eq_false_iff_not] at aligned
    rw [joined_take selection tail] at split
    exact aligned split.2

end

/-! ## The two keys -/

/-- Mark a selection with the two points of a `TextEdit`. -/
def markSelection (edit : TextEdit) (selection : Selection edit.text) : TextEdit :=
  { edit with
    point1Row := selection.startRow
    point1Col := selection.startCol
    point2Row := selection.endRow
    point2Col := selection.endCol }

/-- The rows after `CTRL_X` and `CTRL_V`. -/
def cutThenPaste (edit : TextEdit) (clipBoard : Option Textframe) : Option (List Row) := do
  let (edit, clipBoard) ← handleKeyboardTextEdit edit clipBoard ctrlX
  let (edit, _) ← handleKeyboardTextEdit edit clipBoard ctrlV
  some edit.text.data

section

variable {edit : TextEdit} (selection : Selection edit.text)

/-- The column at which `CTRL_X` leaves the cursor. -/
def cutColumn : Int :=
  posColumn (joined selection) selection.startCol

theorem textEditAdjustColRow_markSelection :
    textEditAdjustColRow (markSelection edit selection) = markSelection edit selection := by
  have rows_le := selection.rows_le
  have cols_le := selection.cols_le
  rw [textEditAdjustColRow, if_neg]
  simp only [markSelection]
  omega

/-- The component after `CTRL_X`, its cursor at the start column as it was
marked. -/
def afterCut (rest : Textframe) : TextEdit :=
  clearPoint2 { markSelection edit selection with
    text := { rest with
      cursorRow := selection.startRow
      cursorCol := cutColumn selection } }

theorem replaceSelection_markSelection :
    replaceSelection (markSelection edit selection) =
      (textframeDelete edit.text selection.startRow selection.startCol selection.endRow
        selection.endCol).map (afterCut selection) := by
  have moved : moveToPos (deleted (cutRows selection)) selection.startRow selection.startCol = _ :=
    moveToPos_of_line (cutRows_getElem? selection) _
  rw [replaceSelection]
  simp only [markSelection]
  rw [textframeDelete_eq_cutRows selection]
  simp only [bind_eq_bind, bind_some, map_some]
  rw [moved]
  rfl

section

variable (parent : edit.parent ≠ none) (marked : selection.endCol ≠ -1)
  (clipBoard : Option Textframe)
include parent marked

/-- `CTRL_X` extracts and deletes the selection. -/
theorem ctrlXKey_markSelection :
    ctrlXKey (markSelection edit selection) clipBoard =
      (textframeExtract edit.text selection.startRow selection.startCol selection.endRow
        selection.endCol).bind fun clip =>
          (textframeDelete edit.text selection.startRow selection.startCol selection.endRow
            selection.endCol).map fun rest => (afterCut selection rest, some clip) := by
  have copy : ctrlCKey (markSelection edit selection) clipBoard =
      (textframeExtract edit.text selection.startRow selection.startCol selection.endRow
        selection.endCol).map fun clip => (markSelection edit selection, some clip) := by
    rw [ctrlCKey, if_pos ⟨marked, parent⟩, textEditAdjustColRow_markSelection, map_eq_bind]
    rfl
  have marks : (markSelection edit selection).point2Col ≠ -1 := marked
  have remove : backspaceKey (markSelection edit selection) =
      (textframeDelete edit.text selection.startRow selection.startCol selection.endRow
        selection.endCol).map (afterCut selection) := by
    rw [backspaceKey, if_neg marks, textEditAdjustColRow_markSelection,
      replaceSelection_markSelection]
  rw [ctrlXKey, if_pos marks, copy, bind_eq_bind, bind_map]
  simp only [Function.comp_def, remove]
  simp only [bind_eq_bind, map_eq_bind, bind_assoc, bind_some, Function.comp_def]

theorem cutThenPaste_markSelection :
    cutThenPaste (markSelection edit selection) clipBoard =
      pasteAt selection (cutColumn selection) := by
  obtain ⟨parentType, parent_eq⟩ := ne_none_iff_exists'.mp parent
  rw [cutThenPaste, handleKeyboardTextEdit_ctrlX, ctrlXKey_markSelection selection parent marked,
    pasteAt]
  cases textframeExtract edit.text selection.startRow selection.startCol selection.endRow
      selection.endCol with
  | none => rfl
  | some clip =>
    cases textframeDelete edit.text selection.startRow selection.startCol selection.endRow
        selection.endCol with
    | none => rfl
    | some rest =>
      have paste : ctrlVKey (afterCut selection rest) (some clip) =
          (textframeInsert rest clip selection.startRow (cutColumn selection)).map
            fun restored => ({ afterCut selection rest with
              text := restored
              point1Col := cutColumn selection }, some clip) := by
        rw [← textframeInsert_with_cursor rest clip selection.startRow (cutColumn selection)]
        simp only [ctrlVKey, afterCut, clearPoint2, markSelection, parent_eq, map_eq_bind]
        rfl
      simp only [bind_eq_bind, bind_some, map_some, handleKeyboardTextEdit_ctrlV, paste, bind_map]
      rfl

end

theorem fromCol_le_cutColumn :
    selection.fromCol ≤ cursorColumn (joined selection) (cutColumn selection) := by
  have fromCol_le := fromCol_le_joined selection
  have start_le : (selection.fromCol : Int) ≤ max 0 selection.startCol := by
    rw [selection.fromCol_eq, startColumn]
    unfold clampColumn
    split <;> omega
  refine le_cursorColumn _ ?_
  rw [cutColumn, clampColumn_of_le (posColumn_le _ _)]
  refine le_cursorColumn _ ?_
  unfold clampColumn clipColumn
  split_ifs <;> omega

end

/-- Extracting a selection, deleting it and inserting it at its aligned start
restores the rows exactly when the selection ends inside its last row, the
deletion keeps the tail of that row, and the joined row has a character
boundary at the start.  `CTRL_X` and `CTRL_V` insert at the column where the cut
leaves the cursor, and restore the rows exactly when the bytes between the
aligned start and that column can change places with the selected text. -/
theorem cut_then_paste_restores_iff (edit : TextEdit) (selection : Selection edit.text)
    (clipBoard : Option Textframe) :
    (pasteAt selection selection.fromCol = some edit.text.data ↔
      EndsInside selection ∧ KeepsTail selection ∧
        insideHan (joined selection) selection.fromCol = false) ∧
    (edit.parent ≠ none → selection.endCol ≠ -1 →
      (cutThenPaste (markSelection edit selection) clipBoard = some edit.text.data ↔
        EndsInside selection ∧ KeepsTail selection ∧
          (skipped selection (cutColumn selection) = [] ∨
            ∃ line, selection.selected = [line] ∧
              skipped selection (cutColumn selection) ++ line =
                line ++ skipped selection (cutColumn selection)))) := by
  constructor
  · exact pasteAt_fromCol_restores_iff selection
  intro parent marked
  rw [cutThenPaste_markSelection selection parent marked,
    pasteAt_restores_iff selection (fromCol_le_cutColumn selection),
    glue_singleton_comm_iff selection.selected_ne_nil]

/-- Two rows, as a file buffer would show them. -/
def twoRows : TextEdit :=
  { makeTextEdit ⟨0, 0, 0⟩ (some .fileBuffer) with
    text := { data := [[97, 98], [99]], cursorRow := 0, cursorCol := 0, maxrowCapacity := 2 } }

/-- A selection in the first row, up to a column of that row. -/
def firstRowUpTo (endCol : Nat) : Selection twoRows.text where
  startRow := 0
  startCol := 0
  endRow := 0
  endCol := endCol
  rows_le := Nat.le_refl Nat.zero
  endRow_lt := by decide
  cols_le := fun _ => Int.natCast_nonneg endCol

theorem cut_then_paste_first_letter :
    EndsInside (firstRowUpTo 0) ∧
      pasteAt (firstRowUpTo 0) (firstRowUpTo 0).fromCol = some twoRows.text.data ∧
      cutThenPaste (markSelection twoRows (firstRowUpTo 0)) none = some twoRows.text.data := by
  obtain ⟨atStart, atCursor⟩ := cut_then_paste_restores_iff twoRows (firstRowUpTo 0) none
  refine ⟨by decide, atStart.mpr (by decide), (atCursor (by decide) (by decide)).mpr ?_⟩
  exact ⟨by decide, by decide, .inl (by decide)⟩

/-- A selection that reaches the end of its row comes back with a line break
that was never cut. -/
theorem cut_then_paste_adds_row :
    pasteAt (firstRowUpTo 2) (firstRowUpTo 2).fromCol ≠ some twoRows.text.data ∧
      cutThenPaste (markSelection twoRows (firstRowUpTo 2)) none ≠
        some twoRows.text.data := by
  decide

end XEditor.Edit
