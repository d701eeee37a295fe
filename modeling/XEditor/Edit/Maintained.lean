import XEditor.Edit.Events
import XEditor.Text.Moves

/-!
# Properties of the text that the keys maintain

The keys of a text edit are combinations of a few text operations.  A property
of texts that these operations maintain is maintained by every key; the case
analysis over the keys is made once, here, for every such property.
-/

namespace XEditor.Edit

open Option Text

/-- The range a key deletes, as the points of a text edit, when something is
selected.  Printable keys take the points as they are, the others put them in
order. -/
def deletes (edit : TextEdit) (clipBoard : Option Textframe) (c : Int) : Option TextEdit :=
  if edit.point2Col = -1 then none
  else if c = enter ∨ c = backspace ∨ c = ctrlX ∨
      c = ctrlV ∧ edit.parent ≠ none ∧ clipBoard ≠ none then
    some (textEditAdjustColRow edit)
  else if 32 ≤ c ∧ c ≤ 126 then some edit
  else none

/-- A property `good` of texts that the operations behind the keys maintain, for
clipboards with the property `clip` and for deletions that meet `cuts`. -/
structure Maintained (good clip : Textframe → Prop) (cuts : TextEdit → Prop) : Prop where
  valid : ∀ text, good text → CursorValid text
  placed : ∀ text next, good text → next.data = text.data → Placed next → good next
  newLine : ∀ text, good text → ∃ next, newLineToEditor text = some next ∧ good next
  erase : ∀ text, good text → ∃ next, backspaceText text = some next ∧ good next
  printable : ∀ text (c : Int), good text → 32 ≤ c → c ≤ 126 →
    ∃ next, typeByte text (UInt8.ofNat c.toNat) = some next ∧ good next
  delete : ∀ edit : TextEdit, good edit.text → 0 ≤ edit.point2Row → cuts edit →
    ∃ rest, textframeDelete edit.text edit.point1Row edit.point1Col edit.point2Row
        edit.point2Col = some rest ∧ rest.data ≠ [] ∧
      ∀ next, next.data = rest.data → Placed next → good next
  copy : ∀ edit : TextEdit, good edit.text → 0 ≤ edit.point2Row →
    textEditAdjustColRow edit = edit → ∀ inText, textframeExtract edit.text edit.point1Row
      edit.point1Col edit.point2Row edit.point2Col = some inText → clip inText
  paste : ∀ text inText, good text → clip inText →
    ∃ next, textframeInsert text inText text.cursorRow text.cursorCol = some next ∧ good next

/-- The points of a selection are in rows that are not negative; the marker -1
in the first one stands for the last row. -/
structure PointsValid (edit : TextEdit) : Prop where
  point1 : -1 ≤ edit.point1Row
  point2 : edit.point2Col ≠ -1 → 0 ≤ edit.point2Row

/-- A session whose text and clipboard have the properties. -/
structure Holds (good clip : Textframe → Prop) (session : Session) : Prop where
  text : good session.edit.text
  points : PointsValid session.edit
  clipBoard : ∀ inText ∈ session.clipBoard, clip inText

/-! ## The points of a selection -/

variable {row c : Int} {session : Session}

section

variable {edit : TextEdit}

theorem textEditAdjustColRow_text (edit : TextEdit) :
    (textEditAdjustColRow edit).text = edit.text := by
  unfold textEditAdjustColRow
  split <;> rfl

theorem textEditAdjustColRow_parent (edit : TextEdit) :
    (textEditAdjustColRow edit).parent = edit.parent := by
  unfold textEditAdjustColRow
  split <;> rfl

/-- Ordering the points twice changes nothing. -/
theorem textEditAdjustColRow_idem (edit : TextEdit) :
    textEditAdjustColRow (textEditAdjustColRow edit) = textEditAdjustColRow edit := by
  by_cases reversed : edit.point2Row < edit.point1Row ∨
      (edit.point2Row = edit.point1Row ∧ edit.point2Col < edit.point1Col)
  · have ordered : ¬ (edit.point1Row < edit.point2Row ∨
        (edit.point1Row = edit.point2Row ∧ edit.point1Col < edit.point2Col)) := by omega
    rw [textEditAdjustColRow.eq_def edit, if_pos reversed, textEditAdjustColRow, if_neg ordered]
  · rw [textEditAdjustColRow.eq_def edit, if_neg reversed, textEditAdjustColRow, if_neg reversed]

/-- Putting the points of a selection in order keeps their rows valid. -/
theorem PointsValid.ordered (points : PointsValid edit) (selected : edit.point2Col ≠ -1) :
    -1 ≤ (textEditAdjustColRow edit).point1Row ∧ 0 ≤ (textEditAdjustColRow edit).point2Row := by
  have point1 := points.point1
  have point2 := points.point2 selected
  unfold textEditAdjustColRow
  split
  · simp only
    omega
  · exact ⟨point1, point2⟩

/-- Points that are in order have their rows in order. -/
theorem rows_le_of_ordered (ordered : textEditAdjustColRow edit = edit) :
    edit.point1Row ≤ edit.point2Row := by
  by_contra reversed
  rw [textEditAdjustColRow, if_pos (.inl (by omega))] at ordered
  have rows := congrArg TextEdit.point1Row ordered
  simp only at rows
  omega

theorem PointsValid.clearPoint2 (points : PointsValid edit) (text : Textframe) :
    PointsValid (clearPoint2 { edit with text := text }) :=
  ⟨points.point1, fun selected => absurd rfl selected⟩

/-- Extending a selection keeps its rows valid. -/
theorem PointsValid.selectTo (points : PointsValid edit) (rows : 1 ≤ edit.text.maxrow)
    (row_nonneg : 0 ≤ row) (col : Int) : PointsValid (selectTo edit row col) := by
  have point1 := points.point1
  unfold Edit.selectTo
  split
  · exact points
  constructor
  · simp only
    split <;> omega
  · simp only
    split <;> omega

theorem selectTo_text (edit : TextEdit) (row col : Int) :
    (selectTo edit row col).text = edit.text := by
  unfold selectTo
  split <;> rfl

end

/-- A search from the search frame leaves the edit as it is or selects the
hit. -/
theorem searchSelect_cases {edit : TextEdit} (valid : CursorValid edit.text)
    {pattern : Row} (nonempty : pattern ≠ []) :
    searchSelect edit pattern = some (edit, false) ∨
    ∃ i j row next, NextPlace edit.text pattern (toLex (i, j)) ∧
      edit.text.data[i]? = some row ∧ j + pattern.length ≤ row.length ∧
      searchSelect edit pattern = some (next, true) ∧
      next.text = cursorAt edit.text (i, j + pattern.length) ∧ PointsValid next := by
  obtain ⟨above, left, right, below, located⟩ := valid.exists_located
  rcases search_spec nonempty located.row_eq located.col_eq with
    called | ⟨i, j, row, result, isNext, found, read, fits, called⟩
  · refine .inl ?_
    rw [searchSelect, called]
    rfl
  · refine .inr ⟨i, j, row, { edit with
        text := cursorAt edit.text (i, j + pattern.length)
        point2Col := (j + pattern.length : Nat) - 1
        point2Row := i
        point1Col := (j + pattern.length : Nat) - pattern.length
        point1Row := i
        selecting := 1 }, isNext, read, fits, ?_, rfl, ?_⟩
    · rw [searchSelect, called]
      simp only [bind_eq_bind, bind_some, if_pos found]
      rfl
    · exact ⟨show (-1 : Int) ≤ i by omega, fun _ => Int.natCast_nonneg i⟩

theorem fontHeight_nonneg (scale : Int) : 0 ≤ fontHeight scale := by
  unfold fontHeight fontSize
  split
  · exact Int.tdiv_nonneg (by decide) (Int.pow_nonneg (by decide))
  · split
    · exact Int.mul_nonneg (by decide) (Int.pow_nonneg (by decide))
    · decide

/-! ## The keys -/

namespace Maintained

variable {good clip : Textframe → Prop} {cuts : TextEdit → Prop} {edit : TextEdit}

section

variable (maintained : Maintained good clip cuts)

include maintained

/-- Deleting the selection leaves a good text and nothing selected. -/
theorem replaceSelection (text : good edit.text) (point1 : -1 ≤ edit.point1Row)
    (point2 : 0 ≤ edit.point2Row) (cut : cuts edit) :
    ∃ next, Edit.replaceSelection edit = some next ∧ good next.text ∧ PointsValid next ∧
      next.parent = edit.parent := by
  obtain ⟨rest, called, nonempty, kept⟩ := maintained.delete edit text point2 cut
  have placed := moveToPos_placed nonempty point1 edit.point1Col
  refine ⟨{ edit with
      text := moveToPos rest edit.point1Row edit.point1Col
      point2Row := -1
      point2Col := -1 }, ?_, kept _ (moveToPos_data _ _ _) placed, ?_, rfl⟩
  · rw [Edit.replaceSelection, called]
    rfl
  · exact ⟨point1, fun selected => absurd rfl selected⟩

section

variable (text : good edit.text) (points : PointsValid edit)

include text points

/-- The same for the keys that put the points in order first. -/
theorem replaceOrdered (cut : edit.point2Col ≠ -1 → cuts (textEditAdjustColRow edit)) :
    ∃ next, Edit.replaceOrdered edit = some next ∧ good next.text ∧ PointsValid next ∧
      next.parent = edit.parent := by
  rw [Edit.replaceOrdered]
  by_cases selected : edit.point2Col ≠ -1
  · obtain ⟨point1, point2⟩ := points.ordered selected
    rw [if_pos selected, ← textEditAdjustColRow_parent edit]
    rw [← textEditAdjustColRow_text edit] at text
    exact maintained.replaceSelection text point1 point2 (cut selected)
  · rw [if_neg selected]
    exact ⟨edit, rfl, text, points, rfl⟩

/-- And for the printable keys, which do not. -/
theorem replaceUnordered (cut : edit.point2Col ≠ -1 → cuts edit) :
    ∃ next, Edit.replaceUnordered edit = some next ∧ good next.text ∧ PointsValid next := by
  rw [Edit.replaceUnordered]
  by_cases selected : edit.point2Col ≠ -1
  · rw [if_pos selected]
    obtain ⟨next, called, nextText, nextPoints, -⟩ :=
      maintained.replaceSelection text points.point1 (points.point2 selected) (cut selected)
    exact ⟨next, called, nextText, nextPoints⟩
  · rw [if_neg selected]
    exact ⟨edit, rfl, text, points⟩

theorem enterKey (cut : edit.point2Col ≠ -1 → cuts (textEditAdjustColRow edit)) :
    ∃ next, Edit.enterKey edit = some next ∧ good next.text ∧ PointsValid next := by
  obtain ⟨replaced, called, replacedText, replacedPoints, -⟩ :=
    maintained.replaceOrdered text points cut
  obtain ⟨next, newLine, nextText⟩ := maintained.newLine replaced.text replacedText
  refine ⟨{ replaced with text := next }, ?_, nextText, ⟨replacedPoints.point1,
    replacedPoints.point2⟩⟩
  rw [Edit.enterKey, called]
  simp only [bind_eq_bind, bind_some, newLine]

theorem leftArrowKey :
    ∃ next, Edit.leftArrowKey edit = some next ∧ good next.text ∧ PointsValid next := by
  rw [Edit.leftArrowKey]
  by_cases selected : edit.point2Col = -1
  · obtain ⟨next, called, same, placed⟩ := moveToPreviousChar_placed (maintained.valid _ text)
    rw [if_pos selected, called]
    exact ⟨_, rfl, maintained.placed _ _ text same placed, points.clearPoint2 next⟩
  · rw [if_neg selected]
    exact ⟨_, rfl, text, points.clearPoint2 edit.text⟩

theorem backspaceKey (cut : edit.point2Col ≠ -1 → cuts (textEditAdjustColRow edit)) :
    ∃ next, Edit.backspaceKey edit = some next ∧ good next.text ∧ PointsValid next := by
  rw [Edit.backspaceKey]
  by_cases selected : edit.point2Col = -1
  · obtain ⟨next, called, nextText⟩ := maintained.erase _ text
    rw [if_pos selected, called]
    exact ⟨_, rfl, nextText, points.clearPoint2 next⟩
  · rw [if_neg selected]
    obtain ⟨point1, point2⟩ := points.ordered selected
    rw [← textEditAdjustColRow_text edit] at text
    obtain ⟨next, called, nextText, nextPoints, -⟩ :=
      maintained.replaceSelection text point1 point2 (cut selected)
    exact ⟨next, called, nextText, nextPoints⟩

theorem rightArrowKey :
    ∃ next, Edit.rightArrowKey edit = some next ∧ good next.text ∧ PointsValid next := by
  have moved : ∃ start, (if edit.point2Col ≠ -1 then
        clearPoint2 { edit with text := moveToPos edit.text edit.point2Row edit.point2Col }
      else edit) = start ∧ good start.text ∧ PointsValid start := by
    by_cases selected : edit.point2Col ≠ -1
    · have point2 := points.point2 selected
      have placed := moveToPos_placed (maintained.valid _ text).data_ne_nil
        (show -1 ≤ edit.point2Row by omega) edit.point2Col
      rw [if_pos selected]
      exact ⟨_, rfl, maintained.placed _ _ text (moveToPos_data _ _ _) placed, points.clearPoint2 _⟩
    · rw [if_neg selected]
      exact ⟨_, rfl, text, points⟩
  obtain ⟨start, start_eq, startText, startPoints⟩ := moved
  obtain ⟨next, called, same, placed⟩ := moveToNextChar_placed (maintained.valid _ startText)
  refine ⟨{ start with text := next }, ?_, maintained.placed _ _ startText same placed,
    ⟨startPoints.point1, startPoints.point2⟩⟩
  rw [Edit.rightArrowKey, start_eq, called]
  rfl

theorem printableKey (cut : edit.point2Col ≠ -1 → cuts edit) (low : 32 ≤ c) (high : c ≤ 126) :
    ∃ next, Edit.printableKey edit c = some next ∧ good next.text ∧ PointsValid next := by
  obtain ⟨replaced, called, replacedText, replacedPoints⟩ :=
    maintained.replaceUnordered text points cut
  obtain ⟨next, typed, nextText⟩ := maintained.printable _ c replacedText low high
  refine ⟨{ replaced with text := next }, ?_, nextText, ⟨replacedPoints.point1,
    replacedPoints.point2⟩⟩
  rw [Edit.printableKey, called]
  simp only [bind_eq_bind, bind_some, typed]

theorem ctrlVKey {clipBoard : Option Textframe} (clips : ∀ inText ∈ clipBoard, clip inText)
    (cut : edit.parent ≠ none → clipBoard ≠ none → edit.point2Col ≠ -1 →
      cuts (textEditAdjustColRow edit)) :
    ∃ next, Edit.ctrlVKey edit clipBoard = some (next, clipBoard) ∧ good next.text ∧
      PointsValid next := by
  rw [Edit.ctrlVKey.eq_def]
  cases parent : edit.parent with
  | none => exact ⟨edit, rfl, text, points⟩
  | some kind =>
    cases clipBoard with
    | none => exact ⟨edit, rfl, text, points⟩
    | some inText =>
      obtain ⟨replaced, called, replacedText, replacedPoints, -⟩ :=
        maintained.replaceOrdered text points (cut (by simp [parent]) (by simp))
      obtain ⟨next, pasted, nextText⟩ :=
        maintained.paste replaced.text inText replacedText (clips inText rfl)
      have row_nonneg := (maintained.valid _ replacedText).row_nonneg
      refine ⟨{ replaced with
          text := next
          point1Row := replaced.text.cursorRow
          point1Col := replaced.text.cursorCol }, ?_, nextText, ?_⟩
      · simp only [called, bind_eq_bind, bind_some, pasted]
      · exact ⟨show -1 ≤ replaced.text.cursorRow by omega, replacedPoints.point2⟩

variable {clipBoard nextClip : Option Textframe} (clips : ∀ inText ∈ clipBoard, clip inText)
include clips

/-- `CTRL_C` changes nothing but the clipboard and the order of the points, if
the copy stays inside the text. -/
theorem ctrlCKey {next : TextEdit} (called : Edit.ctrlCKey edit clipBoard = some (next, nextClip)) :
    (next = edit ∨ edit.point2Col ≠ -1 ∧ next = textEditAdjustColRow edit) ∧
      ∀ inText ∈ nextClip, clip inText := by
  rw [Edit.ctrlCKey] at called
  split at called
  · rename_i copies
    obtain ⟨inText, extracted, result⟩ := bind_eq_some_iff.mp called
    cases result
    refine ⟨.inr ⟨copies.1, rfl⟩, ?_⟩
    intro copied mem
    rw [mem_some_iff] at mem
    subst mem
    obtain ⟨-, point2⟩ := points.ordered copies.1
    rw [← textEditAdjustColRow_text edit] at text
    exact maintained.copy _ text point2 (textEditAdjustColRow_idem edit) _ extracted
  · cases called
    exact ⟨.inl rfl, clips⟩

theorem ctrlXKey (cut : edit.point2Col ≠ -1 → cuts (textEditAdjustColRow edit)) {next : TextEdit}
    (called : Edit.ctrlXKey edit clipBoard = some (next, nextClip)) :
    good next.text ∧ PointsValid next ∧ ∀ inText ∈ nextClip, clip inText := by
  rw [Edit.ctrlXKey] at called
  split at called
  · rename_i selected
    obtain ⟨⟨copied, copiedClip⟩, copies, rest⟩ := bind_eq_some_iff.mp called
    obtain ⟨removed, removes, result⟩ := bind_eq_some_iff.mp rest
    cases result
    obtain ⟨copied_eq, nextClips⟩ := maintained.ctrlCKey text points clips copies
    have kept : good copied.text ∧ PointsValid copied ∧
        (copied.point2Col ≠ -1 → cuts (textEditAdjustColRow copied)) := by
      rcases copied_eq with rfl | ⟨-, rfl⟩
      · exact ⟨text, points, cut⟩
      · obtain ⟨point1, point2⟩ := points.ordered selected
        rw [textEditAdjustColRow_text, textEditAdjustColRow_idem]
        exact ⟨text, ⟨point1, fun _ => point2⟩, fun _ => cut selected⟩
    obtain ⟨removedAgain, removesAgain, removedText, removedPoints⟩ :=
      maintained.backspaceKey kept.1 kept.2.1 kept.2.2
    rw [removes] at removesAgain
    cases removesAgain
    exact ⟨removedText, removedPoints, nextClips⟩
  · cases called
    exact ⟨text, points, clips⟩

end

/-- A key other than `CTRL_C` and `CTRL_X` never fails. -/
theorem key_returns (holds : Holds good clip session)
    (cut : ∀ range ∈ deletes session.edit session.clipBoard c, cuts range) (notCopy : c ≠ ctrlC)
    (notCut : c ≠ ctrlX) : ∃ next, session.step (.key c) = some next ∧ Holds good clip next := by
  obtain ⟨text, points, clips⟩ := holds
  have finish {result : Option TextEdit}
      (handled : handleKeyboardTextEdit session.edit session.clipBoard c =
        result.map (·, session.clipBoard))
      (kept : ∃ next, result = some next ∧ good next.text ∧ PointsValid next) :
      ∃ next, session.step (.key c) = some next ∧ Holds good clip next := by
    obtain ⟨next, called, nextText, nextPoints⟩ := kept
    refine ⟨⟨next, session.clipBoard⟩, ?_, ⟨nextText, nextPoints, clips⟩⟩
    rw [Session.step, handled, called]
    rfl
  have ordered (deletesOrdered : c = enter ∨ c = backspace ∨ c = ctrlX ∨
      c = ctrlV ∧ session.edit.parent ≠ none ∧ session.clipBoard ≠ none)
      (selected : session.edit.point2Col ≠ -1) : cuts (textEditAdjustColRow session.edit) := by
    apply cut
    rw [deletes, if_neg selected, if_pos deletesOrdered]
    rfl
  by_cases isEnter : c = enter
  · subst isEnter
    exact finish rfl (maintained.enterKey text points (ordered (.inl rfl)))
  by_cases isLeft : c = leftArrow
  · subst isLeft
    exact finish rfl (maintained.leftArrowKey text points)
  by_cases isBackspace : c = backspace
  · subst isBackspace
    exact finish rfl (maintained.backspaceKey text points (ordered (.inr (.inl rfl))))
  by_cases isRight : c = rightArrow
  · subst isRight
    exact finish rfl (maintained.rightArrowKey text points)
  by_cases isUp : c = upArrow
  · subst isUp
    exact ⟨_, rfl, maintained.placed _ _ text (moveToLastLine_data _)
      (moveToLastLine_placed (maintained.valid _ text)),
      points.clearPoint2 _, clips⟩
  by_cases isDown : c = downArrow
  · subst isDown
    exact ⟨_, rfl, maintained.placed _ _ text (moveToNextLine_data _)
      (moveToNextLine_placed (maintained.valid _ text)),
      points.clearPoint2 _, clips⟩
  by_cases isPaste : c = ctrlV
  · subst isPaste
    obtain ⟨next, called, nextText, nextPoints⟩ := maintained.ctrlVKey text points clips
      fun parent clipBoard => ordered (.inr (.inr (.inr ⟨rfl, parent, clipBoard⟩)))
    refine ⟨⟨next, session.clipBoard⟩, ?_, ⟨nextText, nextPoints, clips⟩⟩
    rw [Session.step, handleKeyboardTextEdit_ctrlV, called]
    rfl
  by_cases printable : 32 ≤ c ∧ c ≤ 126
  · apply finish (handleKeyboardTextEdit_printable _ _ printable.1 printable.2)
    apply maintained.printableKey text points ?_ printable.1 printable.2
    intro selected
    apply cut
    rw [deletes, if_neg selected, if_neg (by simp [isEnter, isBackspace, notCut, isPaste]),
      if_pos printable]
    rfl
  · refine ⟨session, ?_, ⟨text, points, clips⟩⟩
    simp only [Session.step, handleKeyboardTextEdit, isEnter, isLeft, isBackspace, isRight, isUp,
      isDown, notCopy, isPaste, notCut, printable, if_false, map_some]

/-- Every key keeps the properties. -/
theorem key {next : Session} (holds : Holds good clip session)
    (cut : ∀ range ∈ deletes session.edit session.clipBoard c, cuts range)
    (stepped : session.step (.key c) = some next) : Holds good clip next := by
  by_cases isCopy : c = ctrlC
  · subst isCopy
    obtain ⟨⟨edit, clipBoard⟩, called, rfl⟩ := map_eq_some_iff.mp stepped
    obtain ⟨edit_eq, clips⟩ := maintained.ctrlCKey holds.text holds.points holds.clipBoard called
    rcases edit_eq with rfl | ⟨selected, rfl⟩
    · exact ⟨holds.text, holds.points, clips⟩
    obtain ⟨point1, point2⟩ := holds.points.ordered selected
    refine ⟨?_, ⟨point1, fun _ => point2⟩, clips⟩
    rw [textEditAdjustColRow_text]
    exact holds.text
  by_cases isCut : c = ctrlX
  · subst isCut
    obtain ⟨⟨edit, clipBoard⟩, called, rfl⟩ := map_eq_some_iff.mp stepped
    have ordered (selected : session.edit.point2Col ≠ -1) :
        cuts (textEditAdjustColRow session.edit) := by
      apply cut
      rw [deletes, if_neg selected]
      rfl
    obtain ⟨text, points, clips⟩ :=
      maintained.ctrlXKey holds.text holds.points holds.clipBoard ordered called
    exact ⟨text, points, clips⟩
  · obtain ⟨other, called, otherHolds⟩ := maintained.key_returns holds cut isCopy isCut
    rw [stepped] at called
    cases called
    exact otherHolds

/-- A mouse event at a row of the text that is not negative keeps the
properties. -/
theorem mouseAt (text : good edit.text) (points : PointsValid edit) (row_nonneg : 0 ≤ row)
    (col : Int) (mouseOpt : MouseOpt) :
    good (Edit.mouseAt edit row col mouseOpt).text ∧
      PointsValid (Edit.mouseAt edit row col mouseOpt) := by
  have nonempty := (maintained.valid _ text).data_ne_nil
  have moved : good (moveToPos edit.text row col) :=
    maintained.placed _ _ text (moveToPos_data _ _ _) (moveToPos_placed nonempty (by omega) col)
  have rows : 1 ≤ (moveToPos edit.text row col).maxrow := (maintained.valid _ moved).rows
  cases mouseOpt with
  | leftPress =>
    exact ⟨moved, show -1 ≤ row by omega, fun selected => absurd rfl selected⟩
  | rightPress => exact ⟨moved, points.point1, points.point2⟩
  | rightRelease => exact ⟨moved, points.point1, points.point2⟩
  | leftRelease =>
    have movedPoints : PointsValid { edit with text := moveToPos edit.text row col } :=
      ⟨points.point1, points.point2⟩
    simp only [Edit.mouseAt]
    split
    · exact ⟨moved, movedPoints⟩
    have selectedPoints := movedPoints.selectTo rows row_nonneg col
    refine ⟨?_, selectedPoints.point1, selectedPoints.point2⟩
    rw [selectTo_text]
    exact moved
  | move =>
    simp only [Edit.mouseAt]
    split
    · exact ⟨text, points⟩
    · rw [selectTo_text]
      exact ⟨text, points.selectTo (maintained.valid _ text).rows row_nonneg col⟩

theorem mouse {next : Session} (holds : Holds good clip session) {x y : Int} {mouseOpt : MouseOpt}
    (inside : 0 ≤ (mousePosTransform session.edit.area x y).2)
    (stepped : session.step (.mouse x y mouseOpt) = some next) : Holds good clip next := by
  obtain ⟨edit, called, rfl⟩ := map_eq_some_iff.mp stepped
  rw [handleMouseTextEdit] at called
  split at called
  · cases called
    exact holds
  split at called
  · contradiction
  rw [some.injEq] at called
  have row_nonneg := Int.tdiv_nonneg inside (fontHeight_nonneg session.edit.scale)
  obtain ⟨text, points⟩ := maintained.mouseAt holds.text holds.points row_nonneg
    ((mousePosTransform session.edit.area x y).1.tdiv (fontWidth session.edit.scale)) mouseOpt
  exact called ▸ ⟨text, points, holds.clipBoard⟩

end

/-- The event gives the property no other chance to get lost: deletions meet
`cuts`, the mouse is not above the text, and what comes from the search frame,
the pinyin input or another text edit is good. -/
def Keeps (good clip : Textframe → Prop) (cuts : TextEdit → Prop) (session : Session) :
    Event → Prop
  | .key c => ∀ range ∈ deletes session.edit session.clipBoard c, cuts range
  | .mouse x y _ => 0 ≤ (mousePosTransform session.edit.area x y).2
  | .search pattern => pattern ≠ [] ∧
      ∀ i j row, NextPlace session.edit.text pattern (toLex (i, j)) →
        session.edit.text.data[i]? = some row → j + pattern.length ≤ row.length →
          good (cursorAt session.edit.text (i, j + pattern.length))
  | .commit str => ∀ next, typeBytes session.edit.text str = some next → good next
  | .setStr str => good (lineEditSetStr str)
  | .copied inText => clip inText
  | .layout _ _ => True

/-- Such an event maintains the property. -/
theorem step (maintained : Maintained good clip cuts) {next : Session}
    (holds : Holds good clip session) {event : Event} (keeps : Keeps good clip cuts session event)
    (stepped : session.step event = some next) : Holds good clip next := by
  cases event with
  | key c => exact maintained.key holds keeps stepped
  | mouse x y mouseOpt => exact maintained.mouse holds keeps stepped
  | search pattern =>
    obtain ⟨⟨edit, found⟩, called, rfl⟩ := map_eq_some_iff.mp stepped
    rcases searchSelect_cases (maintained.valid _ holds.text) keeps.1 with
      missed | ⟨i, j, row, selected, isNext, read, fits, hit, text_eq, points⟩
    · rw [called] at missed
      obtain ⟨rfl, -⟩ := missed
      exact holds
    · rw [called] at hit
      obtain ⟨rfl, -⟩ := hit
      exact ⟨text_eq ▸ keeps.2 i j row isNext read fits, points, holds.clipBoard⟩
  | commit str =>
    obtain ⟨text, called, rfl⟩ := map_eq_some_iff.mp stepped
    exact ⟨keeps text called, ⟨holds.points.point1, holds.points.point2⟩, holds.clipBoard⟩
  | setStr str =>
    cases stepped
    exact ⟨keeps, ⟨holds.points.point1, holds.points.point2⟩, holds.clipBoard⟩
  | copied inText =>
    rw [Session.step, some.injEq] at stepped
    refine stepped ▸ ⟨holds.text, holds.points, ?_⟩
    intro copied mem
    rw [mem_some_iff] at mem
    exact mem ▸ keeps
  | layout area scale =>
    cases stepped
    exact ⟨holds.text, ⟨holds.points.point1, holds.points.point2⟩, holds.clipBoard⟩

end Maintained

end XEditor.Edit
