import Mathlib.Algebra.Ring.Int.Defs
import XEditor.Lib.Run
import XEditor.Text.Range

/-!
# The text editing component

`struct TextEdit` of `Gui.h` with its mouse and keyboard handlers.  A handler
is partial where the text primitives are: `none` is an access outside a row or
the row array, or a division by a zero font size.

The clipboard is a field of the buffer manager in the source; the keyboard
handler takes it and gives it back.
-/

namespace XEditor.Edit

open List Option Text Run

/-- Source `struct Area`. -/
structure Area where
  x : Int
  y : Int
  width : Int
  height : Int
  offsetX : Int
  offsetY : Int
  deriving DecidableEq, Repr

/-- Source `mouse_pos_transform`. -/
def mousePosTransform (area : Area) (x y : Int) : Int × Int :=
  (x - (area.x - area.offsetX), y - (area.y - area.offsetY))

/-- The kinds of components a `TextEdit` is made for. -/
inductive ParentType where
  | fileBuffer
  | pinyinInput
  | searchFrame
  deriving DecidableEq, Repr

/-- Source `struct TextEdit`; `parent` is `none` for a null pointer. -/
structure TextEdit where
  area : Area
  text : Textframe
  parent : Option ParentType
  point1Row : Int
  point1Col : Int
  point2Row : Int
  point2Col : Int
  selecting : Int
  highlightOn : Int
  scale : Int
  deriving DecidableEq, Repr

/-- The fields of a fresh `TextEdit` that `make_TextEdit` leaves as the
allocator returned them. -/
structure Unset where
  selecting : Int
  highlightOn : Int
  scale : Int

/-- Source `make_TextEdit`. -/
def makeTextEdit (unset : Unset) (parent : Option ParentType) : TextEdit where
  area := ⟨0, 0, 100, 16, 0, 0⟩
  text := lineEditSetStr []
  parent := parent
  point1Row := -1
  point1Col := -1
  point2Row := -1
  point2Col := -1
  selecting := unset.selecting
  highlightOn := unset.highlightOn
  scale := unset.scale

/-- Source `TextEdit_adjust_col_row`: put the two points in document order. -/
def textEditAdjustColRow (edit : TextEdit) : TextEdit :=
  if edit.point2Row < edit.point1Row ∨
      (edit.point2Row = edit.point1Row ∧ edit.point2Col < edit.point1Col) then
    { edit with
      point1Row := edit.point2Row
      point1Col := edit.point2Col
      point2Row := edit.point1Row
      point2Col := edit.point1Col }
  else edit

/-! ## Mouse -/

/-- The mouse messages of `enum MSG_TYPE`. -/
inductive MouseOpt where
  | leftPress
  | leftRelease
  | rightPress
  | rightRelease
  | move
  deriving DecidableEq, Repr

/-- A font size of the smallest zoom level, scaled. -/
def fontSize (base scale : Int) : Int :=
  if scale < 0 then base.tdiv (2 ^ (-scale).toNat)
  else if scale > 0 then base * 2 ^ scale.toNat
  else base

/-- `font_width` of the source. -/
def fontWidth (scale : Int) : Int :=
  fontSize 8 scale

/-- `font_height` of the source. -/
def fontHeight (scale : Int) : Int :=
  fontSize 16 scale

/-- The end point of a selection in progress, as moving the mouse sets it. -/
def selectTo (edit : TextEdit) (row col : Int) : TextEdit :=
  if edit.point1Row = row ∧ edit.point1Col = col then edit
  else
    { edit with
      point1Row :=
        if edit.point1Row ≥ edit.text.maxrow then edit.text.maxrow - 1 else edit.point1Row
      point2Row := if row ≥ edit.text.maxrow then edit.text.maxrow - 1 else row
      point2Col := col }

/-- `handle_mouse_TextEdit` once the text position under the mouse is known. -/
def mouseAt (edit : TextEdit) (row col : Int) (mouseOpt : MouseOpt) : TextEdit :=
  match mouseOpt with
  | .leftPress =>
    { edit with
      text := moveToPos edit.text row col
      point1Row := row
      point1Col := col
      point2Row := -1
      point2Col := -1
      selecting := 1 }
  | .leftRelease =>
    let edit := { edit with text := moveToPos edit.text row col }
    if edit.selecting = 0 then edit else { selectTo edit row col with selecting := 0 }
  | .move => if edit.selecting = 0 then edit else selectTo edit row col
  | .rightPress | .rightRelease =>
    { edit with text := moveToPos edit.text row col, selecting := 0 }

/-- Source `handle_mouse_TextEdit`.  Setting the cursor focus is left to the
caller.  A move without a selection in progress returns before it divides. -/
def handleMouseTextEdit (edit : TextEdit) (x y : Int) (mouseOpt : MouseOpt) :
    Option TextEdit :=
  let position := mousePosTransform edit.area x y
  let width := fontWidth edit.scale
  let height := fontHeight edit.scale
  if mouseOpt = .move ∧ edit.selecting = 0 then some edit
  else if width = 0 ∨ height = 0 then none
  else some (mouseAt edit (position.2.tdiv height) (position.1.tdiv width) mouseOpt)

/-! ## Keyboard -/

/-- Key codes of `Gui.c`. -/
def ctrlP : Int := 16
def backspace : Int := 8
def enter : Int := 10
def leftArrow : Int := 228
def rightArrow : Int := 229
def upArrow : Int := 226
def downArrow : Int := 227
def delete : Int := 233
def ctrlS : Int := 19
def tab : Int := 9
def ctrlC : Int := 3
def ctrlV : Int := 22
def ctrlF : Int := 6
def ctrlX : Int := 24

/-- The statements by which several keys replace the selection: delete it, put
the cursor at its first point and forget its second point. -/
def replaceSelection (edit : TextEdit) : Option TextEdit := do
  let text ← textframeDelete edit.text edit.point1Row edit.point1Col edit.point2Row edit.point2Col
  some { edit with
    text := moveToPos text edit.point1Row edit.point1Col
    point2Row := -1
    point2Col := -1 }

/-- Replace the selection, if there is one, after ordering its points. -/
def replaceOrdered (edit : TextEdit) : Option TextEdit :=
  if edit.point2Col ≠ -1 then replaceSelection (textEditAdjustColRow edit) else some edit

/-- Replace the selection, if there is one, with its points as they are. -/
def replaceUnordered (edit : TextEdit) : Option TextEdit :=
  if edit.point2Col ≠ -1 then replaceSelection edit else some edit

/-- Forget the second point of the selection. -/
def clearPoint2 (edit : TextEdit) : TextEdit :=
  { edit with point2Row := -1, point2Col := -1 }

/-- `case ENTER`. -/
def enterKey (edit : TextEdit) : Option TextEdit := do
  let edit ← replaceOrdered edit
  let text ← newLineToEditor edit.text
  some { edit with text := text }

/-- `case LEFT_ARROW`. -/
def leftArrowKey (edit : TextEdit) : Option TextEdit := do
  if edit.point2Col = -1 then
    let text ← moveToPreviousChar edit.text
    some (clearPoint2 { edit with text := text })
  else some (clearPoint2 edit)

/-- What `BACKSPACE` does to the text when nothing is selected. -/
def backspaceText (text : Textframe) : Option Textframe :=
  if text.cursorCol > 0 then (moveToPreviousChar text).bind backspaceToStr
  else moveCurLineToPrevLine text

/-- `case BACKSPACE`. -/
def backspaceKey (edit : TextEdit) : Option TextEdit := do
  if edit.point2Col = -1 then
    let text ← backspaceText edit.text
    some (clearPoint2 { edit with text := text })
  else replaceSelection (textEditAdjustColRow edit)

/-- `case RIGHT_ARROW`. -/
def rightArrowKey (edit : TextEdit) : Option TextEdit := do
  let edit :=
    if edit.point2Col ≠ -1 then
      clearPoint2 { edit with text := moveToPos edit.text edit.point2Row edit.point2Col }
    else edit
  let text ← moveToNextChar edit.text
  some { edit with text := text }

/-- `case UP_ARROW`. -/
def upArrowKey (edit : TextEdit) : TextEdit :=
  clearPoint2 { edit with text := moveToLastLine edit.text }

/-- `case DOWN_ARROW`. -/
def downArrowKey (edit : TextEdit) : TextEdit :=
  clearPoint2 { edit with text := moveToNextLine edit.text }

/-- `case CTRL_C`: copy the selection to the clipboard. -/
def ctrlCKey (edit : TextEdit) (clipBoard : Option Textframe) :
    Option (TextEdit × Option Textframe) :=
  if edit.point2Col ≠ -1 ∧ edit.parent ≠ none then do
    let edit := textEditAdjustColRow edit
    let clip ← textframeExtract edit.text edit.point1Row edit.point1Col edit.point2Row
      edit.point2Col
    some (edit, some clip)
  else some (edit, clipBoard)

/-- `case CTRL_V`: put the clipboard in the place of the selection or at the
cursor. -/
def ctrlVKey (edit : TextEdit) (clipBoard : Option Textframe) :
    Option (TextEdit × Option Textframe) :=
  match edit.parent, clipBoard with
  | some _, some clip => do
    let edit ← replaceOrdered edit
    let text ← textframeInsert edit.text clip edit.text.cursorRow edit.text.cursorCol
    some ({ edit with
      text := text
      point1Row := edit.text.cursorRow
      point1Col := edit.text.cursorCol }, clipBoard)
  | _, _ => some (edit, clipBoard)

/-- `case CTRL_X`: the source calls its own handler for `CTRL_C` and for
`BACKSPACE`, and then falls through to a case that ignores the key. -/
def ctrlXKey (edit : TextEdit) (clipBoard : Option Textframe) :
    Option (TextEdit × Option Textframe) :=
  if edit.point2Col ≠ -1 then do
    let (edit, clipBoard) ← ctrlCKey edit clipBoard
    let edit ← backspaceKey edit
    some (edit, clipBoard)
  else some (edit, clipBoard)

/-- Type one byte: store it at the cursor and move on. -/
def typeByte (text : Textframe) (ch : UInt8) : Option Textframe :=
  (putcToStr text ch).bind moveToNextChar

/-- A printable key.  The points of a selection are not put in order here. -/
def printableKey (edit : TextEdit) (c : Int) : Option TextEdit := do
  let edit ← replaceUnordered edit
  let text ← typeByte edit.text (UInt8.ofNat c.toNat)
  some { edit with text := text }

/-- Source `handle_keyboard_TextEdit`. -/
def handleKeyboardTextEdit (edit : TextEdit) (clipBoard : Option Textframe) (c : Int) :
    Option (TextEdit × Option Textframe) :=
  if c = enter then (enterKey edit).map (·, clipBoard)
  else if c = leftArrow then (leftArrowKey edit).map (·, clipBoard)
  else if c = backspace then (backspaceKey edit).map (·, clipBoard)
  else if c = rightArrow then (rightArrowKey edit).map (·, clipBoard)
  else if c = upArrow then some (upArrowKey edit, clipBoard)
  else if c = downArrow then some (downArrowKey edit, clipBoard)
  else if c = ctrlC then ctrlCKey edit clipBoard
  else if c = ctrlV then ctrlVKey edit clipBoard
  else if c = ctrlX then ctrlXKey edit clipBoard
  else if 32 ≤ c ∧ c ≤ 126 then (printableKey edit c).map (·, clipBoard)
  else some (edit, clipBoard)

section

variable (edit : TextEdit) (clipBoard : Option Textframe)

theorem handleKeyboardTextEdit_enter :
    handleKeyboardTextEdit edit clipBoard enter = (enterKey edit).map (·, clipBoard) :=
  rfl

theorem handleKeyboardTextEdit_backspace :
    handleKeyboardTextEdit edit clipBoard backspace = (backspaceKey edit).map (·, clipBoard) :=
  rfl

theorem handleKeyboardTextEdit_ctrlV :
    handleKeyboardTextEdit edit clipBoard ctrlV = ctrlVKey edit clipBoard :=
  rfl

theorem handleKeyboardTextEdit_ctrlX :
    handleKeyboardTextEdit edit clipBoard ctrlX = ctrlXKey edit clipBoard :=
  rfl

theorem handleKeyboardTextEdit_printable {c : Int} (low : 32 ≤ c) (high : c ≤ 126) :
    handleKeyboardTextEdit edit clipBoard c = (printableKey edit c).map (·, clipBoard) := by
  have notSpecial : c ≠ enter ∧ c ≠ leftArrow ∧ c ≠ backspace ∧ c ≠ rightArrow ∧ c ≠ upArrow ∧
      c ≠ downArrow ∧ c ≠ ctrlC ∧ c ≠ ctrlV ∧ c ≠ ctrlX := by
    simp only [enter, leftArrow, backspace, rightArrow, upArrow, downArrow, ctrlC, ctrlV, ctrlX]
    omega
  simp only [handleKeyboardTextEdit, notSpecial, if_false, if_pos (And.intro low high)]

end

/-! ## Typing -/

section

variable {text next : Textframe} {ch : UInt8}

/-- A byte is typed at the cursor, which is inside of a row. -/
theorem typeByte_data (notNul : ch ≠ 0) (typed : typeByte text ch = some next) :
    ∃ line, text.line? text.cursorRow = some line ∧ 0 ≤ text.cursorCol ∧
      text.cursorCol ≤ line.length ∧
        next.data = text.data.set text.cursorRow.toNat
          (line.take text.cursorCol.toNat ++ ch :: line.drop text.cursorCol.toNat) := by
  obtain ⟨stored, storing, moved⟩ := bind_eq_some_iff.mp typed
  obtain ⟨line, read, stores⟩ := bind_eq_some_iff.mp storing
  simp only at stores
  split at stores
  · cases stores
  rename_i inRow
  rw [some.injEq] at stores
  obtain ⟨newLine, -, moves⟩ := bind_eq_some_iff.mp moved
  rw [some.injEq] at moves
  refine ⟨line, read, by omega, by omega, ?_⟩
  rw [← moves, ← stores]
  simp only [adjustCursor]
  split_ifs <;> rfl

/-- Every other byte can be typed there as well. -/
theorem exists_typeByte {line : Row} (read : text.line? text.cursorRow = some line)
    (low : 0 ≤ text.cursorCol) (high : text.cursorCol ≤ line.length) (ch : UInt8) :
    ∃ next, typeByte text ch = some next := by
  have inRow : ¬ (text.cursorCol < 0 ∨ text.cursorCol > line.length) := by omega
  have storing : putcToStr text ch = some { text with
      data := text.data.set text.cursorRow.toNat (if ch = 0 then line.take text.cursorCol.toNat
        else line.take text.cursorCol.toNat ++ ch :: line.drop text.cursorCol.toNat) } := by
    simp only [putcToStr, read, bind_eq_bind, bind_some, if_neg inRow]
  rw [typeByte, storing, bind_some, moveToNextChar]
  rw [Textframe.line?] at read
  split at read
  · rename_i rowLow
    obtain ⟨inside, -⟩ := List.getElem?_eq_some_iff.mp read
    simp [Textframe.line?, rowLow, inside]
  · cases read

/-- Two bytes typed at the same place leave two texts. -/
theorem typeByte_ne {other : UInt8} {otherNext : Textframe} (notNul : ch ≠ 0)
    (otherNotNul : other ≠ 0) (distinct : ch ≠ other) (typed : typeByte text ch = some next)
    (otherTyped : typeByte text other = some otherNext) : next ≠ otherNext := by
  obtain ⟨line, read, -, -, data⟩ := typeByte_data notNul typed
  obtain ⟨_, otherRead, -, -, otherData⟩ := typeByte_data otherNotNul otherTyped
  obtain rfl := some.inj (read.symm.trans otherRead)
  rw [Textframe.line?] at read
  split at read
  · obtain ⟨inside, -⟩ := List.getElem?_eq_some_iff.mp read
    intro same
    rw [same, otherData] at data
    have row := congrArg (·[text.cursorRow.toNat]?) data
    simp only [getElem?_set_self inside, some.injEq, append_cancel_left_eq, cons.injEq] at row
    exact distinct row.1.symm
  · cases read

variable {edit typed otherTyped : TextEdit} {c d : Int}

theorem ofNat_ne_zero (low : 32 ≤ c) (high : c ≤ 126) : UInt8.ofNat c.toNat ≠ 0 := by
  intro zero
  have value := congrArg UInt8.toNat zero
  change c.toNat % 256 = 0 at value
  omega

theorem ofNat_ne_ofNat (low : 32 ≤ c) (high : c ≤ 126) (lowOther : 32 ≤ d) (highOther : d ≤ 126)
    (distinct : c ≠ d) : UInt8.ofNat c.toNat ≠ UInt8.ofNat d.toNat := by
  intro same
  have value := congrArg UInt8.toNat same
  rw [UInt8.toNat_ofNat', UInt8.toNat_ofNat'] at value
  omega

theorem printableKey_cases (pressed : printableKey edit c = some typed) :
    ∃ replaced, replaceUnordered edit = some replaced ∧
      typeByte replaced.text (UInt8.ofNat c.toNat) = some typed.text := by
  obtain ⟨replaced, replacing, text, typing, pressed⟩ := bind₂_eq_some_iff.mp pressed
  rw [some.injEq] at pressed
  exact ⟨replaced, replacing, pressed ▸ typing⟩

/-- Where one printable key returns every other one does. -/
theorem exists_printableKey (low : 32 ≤ c) (high : c ≤ 126)
    (pressed : printableKey edit c = some typed) (d : Int) :
    ∃ otherTyped, printableKey edit d = some otherTyped := by
  obtain ⟨replaced, replacing, typing⟩ := printableKey_cases pressed
  obtain ⟨line, read, colLow, colHigh, -⟩ := typeByte_data (ofNat_ne_zero low high) typing
  obtain ⟨text, otherTyping⟩ := exists_typeByte read colLow colHigh (UInt8.ofNat d.toNat)
  simp [printableKey, replacing, otherTyping]

/-- Two printable keys leave two texts. -/
theorem printableKey_ne (low : 32 ≤ c) (high : c ≤ 126) (lowOther : 32 ≤ d) (highOther : d ≤ 126)
    (distinct : c ≠ d) (pressed : printableKey edit c = some typed)
    (otherPressed : printableKey edit d = some otherTyped) : typed.text ≠ otherTyped.text := by
  obtain ⟨replaced, replacing, typing⟩ := printableKey_cases pressed
  obtain ⟨_, otherReplacing, otherTyping⟩ := printableKey_cases otherPressed
  obtain rfl := some.inj (replacing.symm.trans otherReplacing)
  exact typeByte_ne (ofNat_ne_zero low high) (ofNat_ne_zero lowOther highOther)
    (ofNat_ne_ofNat low high lowOther highOther distinct) typing otherTyping

end

/-! ## The area of an edit -/

section

variable {edit next : TextEdit}

theorem textEditAdjustColRow_area (edit : TextEdit) :
    (textEditAdjustColRow edit).area = edit.area := by
  rw [textEditAdjustColRow]
  split <;> rfl

theorem selectTo_area (edit : TextEdit) (row col : Int) :
    (selectTo edit row col).area = edit.area := by
  rw [selectTo]
  split <;> rfl

theorem mouseAt_area (edit : TextEdit) (row col : Int) (mouseOpt : MouseOpt) :
    (mouseAt edit row col mouseOpt).area = edit.area := by
  cases mouseOpt with
  | leftPress | rightPress | rightRelease => rfl
  | leftRelease =>
    simp only [mouseAt]
    split
    · rfl
    · exact selectTo_area _ row col
  | move =>
    simp only [mouseAt]
    split
    · rfl
    · exact selectTo_area edit row col

/-- The mouse does not move an edit. -/
theorem handleMouseTextEdit_area {x y : Int} {mouseOpt : MouseOpt}
    (handled : handleMouseTextEdit edit x y mouseOpt = some next) : next.area = edit.area := by
  simp only [handleMouseTextEdit] at handled
  split_ifs at handled
  · rw [some.injEq] at handled
    rw [handled]
  · rw [some.injEq] at handled
    rw [← handled, mouseAt_area]

theorem replaceSelection_area (replaced : replaceSelection edit = some next) :
    next.area = edit.area := by
  obtain ⟨text, -, replaced⟩ := bind_eq_some_iff.mp replaced
  rw [some.injEq] at replaced
  rw [← replaced]

theorem replaceOrdered_area (replaced : replaceOrdered edit = some next) :
    next.area = edit.area := by
  rw [replaceOrdered] at replaced
  split at replaced
  · exact (replaceSelection_area replaced).trans (textEditAdjustColRow_area edit)
  · rw [some.injEq] at replaced
    rw [replaced]

theorem enterKey_area (pressed : enterKey edit = some next) : next.area = edit.area := by
  obtain ⟨replaced, replacing, text, -, pressed⟩ := bind₂_eq_some_iff.mp pressed
  rw [some.injEq] at pressed
  rw [← replaceOrdered_area replacing, ← pressed]

theorem leftArrowKey_area (pressed : leftArrowKey edit = some next) : next.area = edit.area := by
  rw [leftArrowKey] at pressed
  split at pressed
  · obtain ⟨text, -, pressed⟩ := bind_eq_some_iff.mp pressed
    rw [some.injEq] at pressed
    rw [← pressed]
    rfl
  · rw [some.injEq] at pressed
    rw [← pressed]
    rfl

theorem backspaceKey_area (pressed : backspaceKey edit = some next) : next.area = edit.area := by
  rw [backspaceKey] at pressed
  split at pressed
  · obtain ⟨text, -, pressed⟩ := bind_eq_some_iff.mp pressed
    rw [some.injEq] at pressed
    rw [← pressed]
    rfl
  · exact (replaceSelection_area pressed).trans (textEditAdjustColRow_area edit)

theorem rightArrowKey_area (pressed : rightArrowKey edit = some next) : next.area = edit.area := by
  obtain ⟨text, -, pressed⟩ := bind_eq_some_iff.mp pressed
  rw [some.injEq] at pressed
  rw [← pressed]
  split <;> rfl

theorem printableKey_area {c : Int} (pressed : printableKey edit c = some next) :
    next.area = edit.area := by
  obtain ⟨replaced, replacing, text, -, pressed⟩ := bind₂_eq_some_iff.mp pressed
  rw [some.injEq] at pressed
  rw [replaceUnordered] at replacing
  split at replacing
  · rw [← replaceSelection_area replacing, ← pressed]
  · rw [some.injEq] at replacing
    rw [replacing, ← pressed]

variable {clipBoard clip : Option Textframe}

theorem ctrlCKey_area (pressed : ctrlCKey edit clipBoard = some (next, clip)) :
    next.area = edit.area := by
  rw [ctrlCKey] at pressed
  split at pressed
  · obtain ⟨text, -, pressed⟩ := bind_eq_some_iff.mp pressed
    rw [some.injEq, Prod.mk.injEq] at pressed
    rw [← pressed.1, textEditAdjustColRow_area]
  · rw [some.injEq, Prod.mk.injEq] at pressed
    rw [pressed.1]

theorem ctrlVKey_area (pressed : ctrlVKey edit clipBoard = some (next, clip)) :
    next.area = edit.area := by
  rw [ctrlVKey.eq_def] at pressed
  split at pressed
  · obtain ⟨replaced, replacing, text, -, pressed⟩ := bind₂_eq_some_iff.mp pressed
    rw [some.injEq, Prod.mk.injEq] at pressed
    rw [← replaceOrdered_area replacing, ← pressed.1]
  · rw [some.injEq, Prod.mk.injEq] at pressed
    rw [pressed.1]

theorem ctrlXKey_area (pressed : ctrlXKey edit clipBoard = some (next, clip)) :
    next.area = edit.area := by
  rw [ctrlXKey] at pressed
  split at pressed
  · obtain ⟨⟨copied, copy⟩, copying, cut, cutting, pressed⟩ := bind₂_eq_some_iff.mp pressed
    rw [some.injEq, Prod.mk.injEq] at pressed
    rw [← pressed.1]
    exact (backspaceKey_area cutting).trans (ctrlCKey_area copying)
  · rw [some.injEq, Prod.mk.injEq] at pressed
    rw [pressed.1]

/-- Nor does a key. -/
theorem handleKeyboardTextEdit_area {c : Int}
    (handled : handleKeyboardTextEdit edit clipBoard c = some (next, clip)) :
    next.area = edit.area := by
  have unpaired {key : Option TextEdit} (paired : key.map (·, clipBoard) = some (next, clip)) :
      key = some next := by
    obtain ⟨pressed, isPressed, same⟩ := map_eq_some_iff.mp paired
    rw [isPressed, (Prod.mk.inj same).1]
  rw [handleKeyboardTextEdit] at handled
  by_cases isEnter : c = enter
  · rw [if_pos isEnter] at handled
    exact enterKey_area (unpaired handled)
  rw [if_neg isEnter] at handled
  by_cases isLeft : c = leftArrow
  · rw [if_pos isLeft] at handled
    exact leftArrowKey_area (unpaired handled)
  rw [if_neg isLeft] at handled
  by_cases isBackspace : c = backspace
  · rw [if_pos isBackspace] at handled
    exact backspaceKey_area (unpaired handled)
  rw [if_neg isBackspace] at handled
  by_cases isRight : c = rightArrow
  · rw [if_pos isRight] at handled
    exact rightArrowKey_area (unpaired handled)
  rw [if_neg isRight] at handled
  by_cases isUp : c = upArrow
  · rw [if_pos isUp, some.injEq, Prod.mk.injEq] at handled
    rw [← handled.1]
    rfl
  rw [if_neg isUp] at handled
  by_cases isDown : c = downArrow
  · rw [if_pos isDown, some.injEq, Prod.mk.injEq] at handled
    rw [← handled.1]
    rfl
  rw [if_neg isDown] at handled
  by_cases isCopy : c = ctrlC
  · rw [if_pos isCopy] at handled
    exact ctrlCKey_area handled
  rw [if_neg isCopy] at handled
  by_cases isPaste : c = ctrlV
  · rw [if_pos isPaste] at handled
    exact ctrlVKey_area handled
  rw [if_neg isPaste] at handled
  by_cases isCut : c = ctrlX
  · rw [if_pos isCut] at handled
    exact ctrlXKey_area handled
  rw [if_neg isCut] at handled
  by_cases isPrintable : 32 ≤ c ∧ c ≤ 126
  · rw [if_pos isPrintable] at handled
    exact printableKey_area (unpaired handled)
  · rw [if_neg isPrintable, some.injEq, Prod.mk.injEq] at handled
    rw [handled.1]

end

end XEditor.Edit
