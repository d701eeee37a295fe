import XEditor.Edit.TextEdit
import XEditor.Lib.Lines
import XEditor.Text.Characters

/-!
# Editing as on a flat buffer

A text read with a line feed between its rows is a flat buffer, and its cursor
an offset into it.  Without a selection the printable keys, `ENTER` and
`BACKSPACE` do to the text what the flat operations do to the buffer.  The
cursor follows, except that joining two rows moves it to the end of the joined
row and not to the seam.
-/

namespace XEditor.Edit

open List Option Buffer Lines Pairing Text

/-- The text as a flat buffer. -/
def flat (text : Textframe) : List UInt8 :=
  joinLines lineFeed text.data

/-- The offset of the cursor in the flat buffer. -/
def flatOffset (text : Textframe) : Nat :=
  let row := text.cursorRow.toNat
  (joinLines lineFeed
    (text.data.take row ++ [(text.data[row]?.getD []).take text.cursorCol.toNat])).length

/-- The number of characters before the cursor. -/
def charOffset (text : Textframe) : Nat :=
  charCount isHan ((flat text).take (flatOffset text))

section

variable {text : Textframe} {above below : List Row} {left right : Row}

variable (located : Located text above left right below)

include located

theorem flat_eq :
    flat text = joinLines lineFeed (above ++ [left]) ++ joinLines lineFeed (right :: below) := by
  rw [flat, located.data_eq, joinLines_split]

theorem flatOffset_eq :
    flatOffset text = (joinLines lineFeed (above ++ [left])).length := by
  simp only [flatOffset, located.row_eq, located.col_eq, Int.toNat_natCast, located.getElem?_row,
    getD_some, take_left]
  rw [located.data_eq, take_left]

theorem charOffset_eq :
    charOffset text = charCount isHan (joinLines lineFeed (above ++ [left])) := by
  rw [charOffset, flat_eq located, flatOffset_eq located, take_left]

/-- A cursor behind a line break or a byte is not at the start. -/
theorem flatOffset_eq_zero_iff :
    flatOffset text = 0 ↔ above = [] ∧ left = [] := by
  rw [flatOffset_eq located]
  rcases eq_nil_or_concat' above with rfl | ⟨rows, prev, rfl⟩
  · simp
  · rw [joinLines_concat_concat]
    simp

end

/-! ## Backspace -/

section

variable {text : Textframe} {above below : List Row} {left right : Row}

/-- Behind a character it is removed. -/
theorem backspaceText_char {char : Row} (isChar : IsChar isHan char)
    (leftPaired : Paired isHan left) (located : Located text above (left ++ char) right below) :
    ∃ next, backspaceText text = some next ∧ Located next above left right below := by
  obtain ⟨moved, movedCall, movedLocated⟩ := located.stepBack isChar leftPaired
  obtain ⟨next, called, nextLocated⟩ := movedLocated.removeChar isChar leftPaired
  have inside : text.cursorCol > 0 := by
    have positive := isChar.length_pos
    rw [located.col_eq, length_append]
    omega
  refine ⟨next, ?_, nextLocated⟩
  rw [backspaceText, if_pos inside, movedCall, bind_some, called]

theorem backspaceText_start (located : Located text above [] right below) :
    backspaceText text = moveCurLineToPrevLine text := by
  have atStart : ¬ text.cursorCol > 0 := by
    rw [located.col_eq, length_nil]
    omega
  rw [backspaceText, if_neg atStart]

/-- At the start of the text nothing happens. -/
theorem backspaceText_first (located : Located text [] [] right below) :
    backspaceText text = some text := by
  rw [backspaceText_start located, located.moveCurLineToPrevLine_first]

/-- At the start of another row the two rows are joined. -/
theorem backspaceText_join {prev : Row} (located : Located text (above ++ [prev]) [] right below) :
    ∃ next front back, backspaceText text = some next ∧ front ++ back = prev ++ right ∧
      front.length = posColumn (prev ++ right) (-1) ∧ Located next above front back below := by
  obtain ⟨next, front, back, called, split, column, nextLocated⟩ :=
    located.moveCurLineToPrevLine_join
  exact ⟨next, front, back, by rw [backspaceText_start located, called], split, column, nextLocated⟩

end

/-! ## The keys -/

section

variable {edit : TextEdit} {above below : List Row} {left right : Row}

theorem toNat_printable {c : Int} (high : c ≤ 126) : (UInt8.ofNat c.toNat).toNat = c.toNat := by
  rw [UInt8.toNat_ofNat']
  omega

theorem isHan_printable {c : Int} (high : c ≤ 126) : isHan (UInt8.ofNat c.toNat) = false := by
  rw [isHan, decide_eq_false_iff_not, UInt8.le_iff_toNat_le, toNat_printable high]
  have han : (160 : UInt8).toNat = 160 := rfl
  omega

variable (noSelection : edit.point2Col = -1) (clipBoard : Option Textframe)
include noSelection

/-- A printable key types its byte. -/
theorem printable_located (located : Located edit.text above left right below) {c : Int}
    (low : 32 ≤ c) (high : c ≤ 126) :
    ∃ next, handleKeyboardTextEdit edit clipBoard c = some (next, clipBoard) ∧
      next.point2Col = -1 ∧
      Located next.text above (left ++ [UInt8.ofNat c.toNat]) right below := by
  have notNul : UInt8.ofNat c.toNat ≠ 0 := by
    intro isNul
    have value := toNat_printable high
    rw [isNul] at value
    have zero : (0 : UInt8).toNat = 0 := rfl
    omega
  obtain ⟨next, called, nextLocated⟩ := located.typed (isHan_printable high) notNul
  refine ⟨{ edit with text := next }, ?_, noSelection, nextLocated⟩
  rw [handleKeyboardTextEdit_printable _ _ low high, printableKey, replaceUnordered,
    if_neg (not_not.mpr noSelection), bind_eq_bind, bind_some, typeByte, called]
  rfl

/-- `ENTER` splits the row. -/
theorem enter_located (located : Located edit.text above left right below)
    (leftPaired : Paired isHan left) :
    ∃ next, handleKeyboardTextEdit edit clipBoard enter = some (next, clipBoard) ∧
      next.point2Col = -1 ∧ Located next.text (above ++ [left]) [] right below := by
  obtain ⟨next, called, nextLocated⟩ :=
    located.newLineToEditor (insideHan_of_paired leftPaired right)
  refine ⟨{ edit with text := next }, ?_, noSelection, nextLocated⟩
  simp [handleKeyboardTextEdit_enter, enterKey, replaceOrdered, noSelection, called]

/-- `BACKSPACE` without a selection. -/
theorem backspace_eq {text : Textframe} (called : backspaceText edit.text = some text) :
    handleKeyboardTextEdit edit clipBoard backspace =
      some (clearPoint2 { edit with text := text }, clipBoard) := by
  simp [handleKeyboardTextEdit_backspace, backspaceKey, noSelection, called]

/-- Behind a character `BACKSPACE` removes it. -/
theorem backspace_char {char : Row} (isChar : IsChar isHan char) (leftPaired : Paired isHan left)
    (located : Located edit.text above (left ++ char) right below) :
    ∃ next, handleKeyboardTextEdit edit clipBoard backspace = some (next, clipBoard) ∧
      Located next.text above left right below := by
  obtain ⟨next, called, nextLocated⟩ := backspaceText_char isChar leftPaired located
  exact ⟨_, backspace_eq noSelection clipBoard called, nextLocated⟩

/-- At the start of the text it changes nothing. -/
theorem backspace_first (located : Located edit.text [] [] right below) :
    ∃ next, handleKeyboardTextEdit edit clipBoard backspace = some (next, clipBoard) ∧
      next.text = edit.text :=
  ⟨_, backspace_eq noSelection clipBoard (backspaceText_first located), rfl⟩

/-- At the start of another row it joins the row with the one above. -/
theorem backspace_join {prev : Row}
    (located : Located edit.text (above ++ [prev]) [] right below) :
    ∃ next front back, handleKeyboardTextEdit edit clipBoard backspace = some (next, clipBoard) ∧
      front ++ back = prev ++ right ∧ front.length = posColumn (prev ++ right) (-1) ∧
      Located next.text above front back below := by
  obtain ⟨next, front, back, called, split, column, nextLocated⟩ := backspaceText_join located
  exact ⟨_, front, back, backspace_eq noSelection clipBoard called, split, column, nextLocated⟩

/-! ## The flat buffer -/

variable (located : Located edit.text above left right below)
include located

/-- A printable key inserts its byte at the cursor's offset. -/
theorem printable_flat {c : Int} (low : 32 ≤ c) (high : c ≤ 126) :
    ∃ next, handleKeyboardTextEdit edit clipBoard c = some (next, clipBoard) ∧
      flat next.text =
        insertAt (flat edit.text) (flatOffset edit.text) (UInt8.ofNat c.toNat) := by
  obtain ⟨next, called, -, nextLocated⟩ := printable_located noSelection clipBoard located low high
  refine ⟨next, called, ?_⟩
  rw [flat_eq nextLocated, flat_eq located, flatOffset_eq located, insertAt_length,
    joinLines_split, joinLines_singleton, append_assoc, singleton_append]

variable (leftPaired : Paired isHan left)
include leftPaired

/-- `ENTER` inserts a line feed there. -/
theorem enter_flat :
    ∃ next, handleKeyboardTextEdit edit clipBoard enter = some (next, clipBoard) ∧
      flat next.text = insertAt (flat edit.text) (flatOffset edit.text) lineFeed := by
  obtain ⟨next, called, -, nextLocated⟩ := enter_located noSelection clipBoard located leftPaired
  refine ⟨next, called, ?_⟩
  rw [flat_eq nextLocated, flat_eq located, flatOffset_eq located, insertAt_length,
    joinLines_concat_concat, append_assoc, singleton_append]

/-- `BACKSPACE` removes the character before the offset: a byte of its own or a
Han character of the row, or the line feed in front of the row. -/
theorem backspace_flat :
    ∃ next, handleKeyboardTextEdit edit clipBoard backspace = some (next, clipBoard) ∧
      flat next.text = removeBefore isHan (flat edit.text) (flatOffset edit.text) ∧
      (flatOffset edit.text = 0 → next.text = edit.text) := by
  rw [flatOffset_eq_zero_iff located]
  rcases eq_nil_or_concat_char leftPaired with rfl | ⟨before, char, rfl, beforePaired, isChar⟩
  · rcases eq_nil_or_concat' above with rfl | ⟨rows, prev, rfl⟩
    · obtain ⟨next, called, same⟩ := backspace_first noSelection clipBoard located
      refine ⟨next, called, ?_, fun _ => same⟩
      rw [(flatOffset_eq_zero_iff located).mpr ⟨rfl, rfl⟩, removeBefore_zero, same]
    · obtain ⟨next, front, back, called, split, -, nextLocated⟩ :=
        backspace_join noSelection clipBoard located
      refine ⟨next, called, ?_, by simp⟩
      have lineBreak : IsChar isHan [lineFeed] := .single (by decide)
      rw [flat, nextLocated.data_eq, split, joinLines_split, flat_eq located,
        flatOffset_eq located, joinLines_concat_concat]
      exact (removeBefore_char lineBreak _ _).symm
  · obtain ⟨next, called, nextLocated⟩ :=
      backspace_char noSelection clipBoard isChar beforePaired located
    refine ⟨next, called, ?_, ?_⟩
    · rw [flat_eq nextLocated, flat_eq located, flatOffset_eq located, joinLines_split,
        joinLines_singleton, removeBefore_char isChar]
    rintro ⟨-, empty⟩
    have positive := isChar.length_pos
    have length := congrArg List.length empty
    simp only [length_append, length_nil] at length
    omega

end

/-- Without a selection the printable keys, `ENTER` and `BACKSPACE` act on the
text as on a flat buffer. -/
theorem edits_refine_flat_buffer {edit : TextEdit} (aligned : Aligned edit.text)
    (noSelection : edit.point2Col = -1) (clipBoard : Option Textframe) :
    (∀ c : Int, 32 ≤ c → c ≤ 126 →
      ∃ next, handleKeyboardTextEdit edit clipBoard c = some (next, clipBoard) ∧
        flat next.text =
          insertAt (flat edit.text) (flatOffset edit.text) (UInt8.ofNat c.toNat)) ∧
    (∃ next, handleKeyboardTextEdit edit clipBoard enter = some (next, clipBoard) ∧
      flat next.text = insertAt (flat edit.text) (flatOffset edit.text) lineFeed) ∧
    (∃ next, handleKeyboardTextEdit edit clipBoard backspace = some (next, clipBoard) ∧
      flat next.text = removeBefore isHan (flat edit.text) (flatOffset edit.text) ∧
      (flatOffset edit.text = 0 → next.text = edit.text)) := by
  obtain ⟨above, left, right, below, located, leftPaired⟩ := aligned.cursor
  refine ⟨?_, ?_, ?_⟩
  · intro c low high
    exact printable_flat noSelection clipBoard located low high
  · exact enter_flat noSelection clipBoard located leftPaired
  · exact backspace_flat noSelection clipBoard located leftPaired

/-- The rows `a` and `b` with the cursor at the start of the second one. -/
def secondRow : TextEdit :=
  { makeTextEdit ⟨0, 0, 0⟩ none with
    text := ⟨[[97], [98]], 1, 0, 2⟩ }

theorem secondRow_aligned : Aligned secondRow.text where
  rows := by decide
  cursor := ⟨[[97]], [], [98], [], ⟨rfl, rfl, rfl⟩, paired_nil⟩

theorem edits_refine_flat_buffer_secondRow :
    ∃ next, handleKeyboardTextEdit secondRow none backspace = some (next, none) ∧
      flat next.text = [97, 98] := by
  obtain ⟨-, -, next, called, removed, -⟩ := edits_refine_flat_buffer secondRow_aligned rfl none
  exact ⟨next, called, removed⟩

/-! ## The cursor -/

/-- Where `move_to_pos` finds the end of a row. -/
def rowEnd (line : Row) : Nat :=
  posColumn line (-1)

/-- The end of a row that an `int` can measure is behind its last byte. -/
theorem rowEnd_eq_length {line : Row} (fits : (line.length : Int) ≤ intMax) :
    rowEnd line = line.length := by
  have clipped : clipColumn line intMax = line.length := by
    unfold clipColumn
    split <;> omega
  rw [rowEnd, posColumn, if_pos rfl, clipped, cursorColumn, clampColumn_of_le (Nat.le_refl _),
    insideHan_length, if_neg Bool.false_ne_true]

/-- The cursor is at the end of its row. -/
def AtRowEnd (text : Textframe) : Prop :=
  ∀ line, text.line? text.cursorRow = some line → text.cursorCol = rowEnd line

/-- If the cursor is at the start of a row below another one, the seam of the two
rows is the end of the joined row. -/
def SeamAtEnd (text : Textframe) : Prop :=
  text.cursorCol = 0 → ∀ prev, text.line? (text.cursorRow - 1) = some prev →
    ∀ line, text.line? text.cursorRow = some line → rowEnd (prev ++ line) = prev.length

/-- The same rows with the cursor at the same place. -/
def SameDocument (first second : Textframe) : Prop :=
  first.data = second.data ∧ first.cursorRow = second.cursorRow ∧
    first.cursorCol = second.cursorCol

/-- Rows of whole characters are read as whole characters. -/
theorem paired_joinLines {rows : List Row} (paired : ∀ row ∈ rows, Paired isHan row) :
    Paired isHan (joinLines lineFeed rows) := by
  induction rows with
  | nil => exact paired_nil
  | cons row rest ih =>
    cases rest with
    | nil =>
      rw [joinLines_singleton]
      exact paired row mem_cons_self
    | cons next rest =>
      apply (paired row mem_cons_self).append
      exact ih fun row mem => paired row (mem_cons_of_mem _ mem)

section

variable {text next : Textframe} {above below : List Row} {left right : Row}

theorem sameDocument_of_located (first : Located next above left right below)
    (second : Located text above left right below) : SameDocument next text :=
  ⟨first.data_eq.trans second.data_eq.symm, first.row_eq.trans second.row_eq.symm,
    first.col_eq.trans second.col_eq.symm⟩

theorem paired_before (located : Located text above left right below)
    (rows : ∀ row ∈ text.data, Paired isHan row) {start : Row} (paired : Paired isHan start) :
    Paired isHan (joinLines lineFeed (above ++ [start])) := by
  apply paired_joinLines
  intro row mem
  rcases mem_append.mp mem with inAbove | isStart
  · apply rows
    rw [located.data_eq]
    exact mem_append_left _ inAbove
  · rwa [mem_singleton.mp isStart]

/-- Whether two places in one row have the same character offset. -/
theorem charCount_row_eq_iff {first firstRest second secondRest : Row}
    (located : Located text above left right below)
    (rows : ∀ row ∈ text.data, Paired isHan row) (firstPaired : Paired isHan first)
    (secondPaired : Paired isHan second) (same : first ++ firstRest = second ++ secondRest) :
    charCount isHan (joinLines lineFeed (above ++ [first])) =
        charCount isHan (joinLines lineFeed (above ++ [second])) ↔
      first.length = second.length := by
  have count (start : Row) : charCount isHan (joinLines lineFeed (above ++ [start])) =
      charCount isHan (joinLines lineFeed (above ++ [[]])) + charCount isHan start := by
    have split := joinLines_split lineFeed above [] start []
    rw [nil_append, joinLines_singleton] at split
    rw [split, charCount_append (paired_before located rows paired_nil)]
  rw [count first, count second, Nat.add_left_cancel_iff,
    charCount_start_eq_iff firstPaired secondPaired same]

/-- A character in front of the cursor counts one. -/
theorem charOffset_concat_char {char : Row} (isChar : IsChar isHan char)
    (nextLocated : Located next above (left ++ char) right below)
    (paired : Paired isHan (joinLines lineFeed (above ++ [left]))) :
    charOffset next = charCount isHan (joinLines lineFeed (above ++ [left])) + 1 := by
  rw [charOffset_eq nextLocated, joinLines_split, joinLines_singleton, charCount_append paired,
    charCount_char isChar]

/-- So does a line break. -/
theorem charOffset_break (nextLocated : Located next (above ++ [left]) [] right below)
    (paired : Paired isHan (joinLines lineFeed (above ++ [left]))) :
    charOffset next = charCount isHan (joinLines lineFeed (above ++ [left])) + 1 := by
  rw [charOffset_eq nextLocated, joinLines_concat_concat, charCount_append paired]
  rfl

/-- Joining two rows of whole characters leaves rows of whole characters. -/
theorem paired_joined_rows {prev front back : Row}
    (located : Located text (above ++ [prev]) [] right below)
    (rows : ∀ row ∈ text.data, Paired isHan row)
    (nextLocated : Located next above front back below) (split : front ++ back = prev ++ right) :
    ∀ row ∈ next.data, Paired isHan row := by
  rw [located.data_eq] at rows
  intro row mem
  rw [nextLocated.data_eq, split, mem_append, mem_cons] at mem
  rcases mem with inAbove | rfl | inBelow
  · exact rows row (by simp [inAbove])
  · exact (rows prev (by simp)).append (rows right (by simp))
  · exact rows row (by simp [inBelow])

end

section

variable {edit : TextEdit} {above below : List Row} {left right : Row}
  (noSelection : edit.point2Col = -1) (clipBoard : Option Textframe)
  (rows : ∀ row ∈ edit.text.data, Paired isHan row)
include noSelection rows

/-- Where `BACKSPACE` joins two rows, it moves the cursor back by one exactly
when the seam is the end of the joined row. -/
theorem backspace_join_moves_back_iff {prev : Row}
    (located : Located edit.text (above ++ [prev]) [] right below) :
    ∃ next, handleKeyboardTextEdit edit clipBoard backspace = some (next, clipBoard) ∧
      (charOffset next.text = charOffset edit.text - 1 ↔ SeamAtEnd edit.text) := by
  obtain ⟨next, start, rest, called, split, column, nextLocated⟩ :=
    backspace_join noSelection clipBoard located
  have nextRows := paired_joined_rows located rows nextLocated split
  have prevPaired : Paired isHan prev := rows prev (by simp [located.data_eq])
  have startPaired : Paired isHan start := by
    have start_eq : start = (prev ++ right).take (posColumn (prev ++ right) (-1)) := by
      rw [← column, ← split, take_left]
    rw [start_eq, ← split]
    exact paired_take_posColumn (nextRows _ (by simp [nextLocated.data_eq])) (-1)
  have readPrev : edit.text.line? (edit.text.cursorRow - 1) = some prev := by
    rw [located.row_eq, length_append, length_singleton, Int.natCast_add,
      Int.natCast_one, Int.add_sub_cancel, Textframe.line?_natCast, located.data_eq]
    simp
  refine ⟨next, called, ?_⟩
  rw [charOffset_eq nextLocated,
    charOffset_break located (paired_before nextLocated nextRows prevPaired), Nat.add_sub_cancel,
    charCount_row_eq_iff nextLocated nextRows startPaired prevPaired split, column]
  simp only [SeamAtEnd, located.col_eq, located.line, readPrev, some.injEq, forall_eq',
    length_nil, Int.natCast_zero, forall_const, nil_append, rowEnd]

variable (located : Located edit.text above left right below) (leftPaired : Paired isHan left)
include located leftPaired

/-- A printable key moves the cursor on by one, and `BACKSPACE` takes it back. -/
theorem printable_moves_on {c : Int} (low : 32 ≤ c) (high : c ≤ 126) :
    ∃ next back, handleKeyboardTextEdit edit clipBoard c = some (next, clipBoard) ∧
      charOffset next.text = charOffset edit.text + 1 ∧
      handleKeyboardTextEdit next clipBoard backspace = some (back, clipBoard) ∧
      SameDocument back.text edit.text := by
  have isChar : IsChar isHan [UInt8.ofNat c.toNat] := .single (isHan_printable high)
  obtain ⟨next, called, nextNoSelection, nextLocated⟩ :=
    printable_located noSelection clipBoard located low high
  obtain ⟨back, backCalled, backLocated⟩ :=
    backspace_char nextNoSelection clipBoard isChar leftPaired nextLocated
  refine ⟨next, back, called, ?_, backCalled, sameDocument_of_located backLocated located⟩
  rw [charOffset_concat_char isChar nextLocated (paired_before located rows leftPaired),
    charOffset_eq located]

/-- `ENTER` moves the cursor on by one.  `BACKSPACE` takes the rows back, and
the cursor if it was at the end of its row. -/
theorem enter_moves_on :
    ∃ next back, handleKeyboardTextEdit edit clipBoard enter = some (next, clipBoard) ∧
      charOffset next.text = charOffset edit.text + 1 ∧
      handleKeyboardTextEdit next clipBoard backspace = some (back, clipBoard) ∧
      back.text.data = edit.text.data ∧
      (SameDocument back.text edit.text ↔ AtRowEnd edit.text) := by
  obtain ⟨next, called, nextNoSelection, nextLocated⟩ :=
    enter_located noSelection clipBoard located leftPaired
  obtain ⟨back, front, rest, backCalled, split, column, backLocated⟩ :=
    backspace_join nextNoSelection clipBoard nextLocated
  have sameRows : back.text.data = edit.text.data := by
    rw [backLocated.data_eq, split, located.data_eq]
  refine ⟨next, back, called, ?_, backCalled, sameRows, ?_⟩
  · rw [charOffset_break nextLocated (paired_before located rows leftPaired), charOffset_eq located]
  have sameRow := backLocated.row_eq.trans located.row_eq.symm
  simp only [SameDocument, sameRows, sameRow, true_and, AtRowEnd, located.line,
    some.injEq, forall_eq', backLocated.col_eq, column, located.col_eq, rowEnd]
  exact eq_comm

/-- `BACKSPACE` moves the cursor back by one unless it joins two rows away from
the seam. -/
theorem backspace_moves_back_iff :
    ∃ next, handleKeyboardTextEdit edit clipBoard backspace = some (next, clipBoard) ∧
      (charOffset next.text = charOffset edit.text - 1 ↔ SeamAtEnd edit.text) := by
  rcases eq_nil_or_concat_char leftPaired with rfl | ⟨before, char, rfl, beforePaired, isChar⟩
  · rcases eq_nil_or_concat' above with rfl | ⟨front, prev, rfl⟩
    · obtain ⟨next, called, same⟩ := backspace_first noSelection clipBoard located
      refine ⟨next, called, iff_of_true ?_ ?_⟩
      · rw [same, charOffset_eq located]
        rfl
      · intro _ prev readPrev
        rw [located.row_eq] at readPrev
        contradiction
    · exact backspace_join_moves_back_iff noSelection clipBoard rows located
  · obtain ⟨next, called, nextLocated⟩ :=
      backspace_char noSelection clipBoard isChar beforePaired located
    refine ⟨next, called, iff_of_true ?_ ?_⟩
    · rw [charOffset_concat_char isChar located (paired_before located rows beforePaired),
        charOffset_eq nextLocated, Nat.add_sub_cancel]
    intro atStart
    have positive := isChar.length_pos
    rw [located.col_eq, length_append] at atStart
    omega

end

/-- Without a selection a printable key and `ENTER` move the cursor on by one
character, and `BACKSPACE` undoes a printable key.  It undoes `ENTER` exactly
when the cursor was at the end of its row, and moves the cursor back by one
exactly when it does not join two rows away from their seam. -/
theorem cursor_follows_edits_iff {edit : TextEdit} (aligned : Aligned edit.text)
    (noSelection : edit.point2Col = -1) (clipBoard : Option Textframe) :
    (∀ c : Int, 32 ≤ c → c ≤ 126 →
      ∃ next back, handleKeyboardTextEdit edit clipBoard c = some (next, clipBoard) ∧
        charOffset next.text = charOffset edit.text + 1 ∧
        handleKeyboardTextEdit next clipBoard backspace = some (back, clipBoard) ∧
        SameDocument back.text edit.text) ∧
    (∃ next back, handleKeyboardTextEdit edit clipBoard enter = some (next, clipBoard) ∧
      charOffset next.text = charOffset edit.text + 1 ∧
      handleKeyboardTextEdit next clipBoard backspace = some (back, clipBoard) ∧
      back.text.data = edit.text.data ∧
      (SameDocument back.text edit.text ↔ AtRowEnd edit.text)) ∧
    (∃ next, handleKeyboardTextEdit edit clipBoard backspace = some (next, clipBoard) ∧
      (charOffset next.text = charOffset edit.text - 1 ↔ SeamAtEnd edit.text)) := by
  obtain ⟨above, left, right, below, located, leftPaired⟩ := aligned.cursor
  refine ⟨?_, ?_, ?_⟩
  · intro c low high
    exact printable_moves_on noSelection clipBoard aligned.rows located leftPaired low high
  · exact enter_moves_on noSelection clipBoard aligned.rows located leftPaired
  · exact backspace_moves_back_iff noSelection clipBoard aligned.rows located leftPaired

theorem cursor_follows_edits_secondRow :
    ∃ next back, handleKeyboardTextEdit secondRow none 97 = some (next, none) ∧
      charOffset next.text = 3 ∧
      handleKeyboardTextEdit next none backspace = some (back, none) ∧
      SameDocument back.text secondRow.text := by
  exact (cursor_follows_edits_iff secondRow_aligned rfl none).1 97 (by decide) (by decide)

/-- After `BACKSPACE` has joined `a` and `b` the cursor is behind `b`, two
characters from the start, where it was before. -/
theorem cursor_stays_behind_joined_row :
    Aligned secondRow.text ∧ secondRow.point2Col = -1 ∧ charOffset secondRow.text = 2 ∧
      ∃ next, handleKeyboardTextEdit secondRow none backspace = some (next, none) ∧
        next.text.data = [[97, 98]] ∧
        charOffset next.text ≠ charOffset secondRow.text - 1 := by
  refine ⟨secondRow_aligned, rfl, rfl, ?_⟩
  have result : (handleKeyboardTextEdit secondRow none backspace).map (fun result =>
      (result.1.text.data, charOffset result.1.text, result.2)) =
        some ([[97, 98]], 2, none) := by
    decide
  obtain ⟨⟨next, clipBoard⟩, called, result⟩ := map_eq_some_iff.mp result
  simp only [Prod.mk.injEq] at result
  obtain ⟨data_eq, offset_eq, rfl⟩ := result
  exact ⟨next, called, data_eq, by rw [offset_eq]; decide⟩

end XEditor.Edit
