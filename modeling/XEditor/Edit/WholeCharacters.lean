import XEditor.Edit.FlatBuffer
import XEditor.Edit.Maintained
import XEditor.Text.Insert

/-!
# Han characters in a session

A text of whole characters stays one, with the cursor between two of them,
under every event of a session but two: a search whose hit ends inside a Han
character, and a deletion over several rows that cuts the tail of the end row
inside one.
-/

namespace XEditor.Edit

open List Option Buffer Lines Pairing Run Text

/-- A clipboard of whole characters. -/
structure WholeClip (clip : Textframe) : Prop where
  nonempty : clip.data ≠ []
  rows : ∀ row ∈ clip.data, Paired isHan row

/-! ## Typing -/

section

variable {text : Textframe} {above below : List Row} {left right : Row}

/-- The two bytes of a Han character, typed one after the other in front of a
byte that is not Han, or at the end of the row. -/
theorem typed_pair_plain (located : Located text above left right below) {first second : UInt8}
    (leftPaired : Paired isHan left) (plain : right.head?.any isHan = false)
    (firstHan : isHan first = true) (secondHan : isHan second = true)
    (firstNotNul : first ≠ 0) (secondNotNul : second ≠ 0) :
    ∃ next, (typeByte text first).bind (typeByte · second) = some next ∧
      Located next above (left ++ [first, second]) right below := by
  obtain ⟨start, startLocated, typeFirst⟩ := located.putcToStr_next firstNotNul
  have boundary : insideHan (left ++ [first] ++ right) (left ++ [first]).length = false := by
    rw [insideHan_append, plain, Bool.false_and]
  rw [startLocated.adjustCursor_boundary boundary] at typeFirst
  obtain ⟨next, nextLocated, typeSecond⟩ := startLocated.putcToStr_next secondNotNul
  rw [append_assoc] at nextLocated
  have frontPaired := leftPaired.append (IsChar.pair firstHan secondHan).paired
  rw [nextLocated.adjustCursor_boundary (insideHan_of_paired frontPaired _)] at typeSecond
  refine ⟨next, ?_, nextLocated⟩
  rw [typeByte, typeFirst, bind_some, typeByte, typeSecond]

/-- In front of another Han character the cursor jumps between its bytes after
the first one, and behind them after the second. -/
theorem typed_pair_between {first second third fourth : UInt8}
    (located : Located text above left (third :: fourth :: right) below)
    (leftPaired : Paired isHan left) (firstHan : isHan first = true)
    (secondHan : isHan second = true) (thirdHan : isHan third = true)
    (fourthHan : isHan fourth = true) (firstNotNul : first ≠ 0) (secondNotNul : second ≠ 0) :
    ∃ next, (typeByte text first).bind (typeByte · second) = some next ∧
      Located next above (left ++ [first, third] ++ [second, fourth]) right below := by
  obtain ⟨start, startLocated, typeFirst⟩ := located.putcToStr_next firstNotNul
  have stepped := startLocated.adjustCursor_right
    (insideHan_between leftPaired firstHan thirdHan _)
  rw [append_assoc] at stepped
  have middlePaired := leftPaired.append (IsChar.pair firstHan thirdHan).paired
  obtain ⟨next, nextLocated, typeSecond⟩ := stepped.putcToStr_next secondNotNul
  have last := nextLocated.adjustCursor_right
    (insideHan_between middlePaired secondHan fourthHan _)
  rw [append_assoc _ [second]] at last
  refine ⟨_, ?_, last⟩
  rw [typeByte, typeFirst, bind_some, typeByte, typeSecond]

/-- Either the row goes on without a Han byte, or with a whole Han character. -/
theorem plain_or_han (rightPaired : Paired isHan right) :
    right.head?.any isHan = false ∨ ∃ third fourth rest, right = third :: fourth :: rest ∧
      isHan third = true ∧ isHan fourth = true ∧ Paired isHan rest := by
  cases right with
  | nil => exact .inl rfl
  | cons third rest =>
    cases thirdHan : isHan third with
    | false => exact .inl (by simpa using thirdHan)
    | true =>
      obtain ⟨fourth, rest, rfl, fourthHan, restPaired⟩ := rightPaired.cons_marked thirdHan
      exact .inr ⟨third, fourth, rest, rfl, thirdHan, fourthHan, restPaired⟩

/-- In both cases the runs of Han bytes stay even. -/
theorem typed_pair (located : Located text above left right below) {first second : UInt8}
    (leftPaired : Paired isHan left) (rightPaired : Paired isHan right)
    (firstHan : isHan first = true) (secondHan : isHan second = true)
    (firstNotNul : first ≠ 0) (secondNotNul : second ≠ 0) :
    ∃ next front back, (typeByte text first).bind (typeByte · second) = some next ∧
      Located next above front back below ∧ Paired isHan front ∧ Paired isHan back := by
  rcases plain_or_han rightPaired with
    plain | ⟨third, fourth, rest, rfl, thirdHan, fourthHan, restPaired⟩
  · obtain ⟨next, called, nextLocated⟩ := typed_pair_plain located leftPaired plain firstHan
      secondHan firstNotNul secondNotNul
    exact ⟨next, _, _, called, nextLocated,
      leftPaired.append (IsChar.pair firstHan secondHan).paired, rightPaired⟩
  · obtain ⟨next, called, nextLocated⟩ := typed_pair_between located leftPaired firstHan
      secondHan thirdHan fourthHan firstNotNul secondNotNul
    refine ⟨next, _, _, called, nextLocated, ?_, restPaired⟩
    exact (leftPaired.append (IsChar.pair firstHan thirdHan).paired).append
      (IsChar.pair secondHan fourthHan).paired

theorem ne_zero_of_isHan {byte : UInt8} (han : isHan byte = true) : byte ≠ 0 := by
  rintro rfl
  contradiction

/-- A commit of the pinyin input puts its Han character in at the cursor, if and
only if the row does not go on with a Han byte there. -/
theorem pinyin_commit_inserts_iff (located : Located text above left right below)
    (whole : ∀ row ∈ text.data, Paired isHan row)
    (boundary : insideHan (left ++ right) left.length = false) {first second : UInt8}
    (firstHan : isHan first = true) (secondHan : isHan second = true) :
    (∃ next, typeBytes text [first, second] = some next ∧
        Located next above (left ++ [first, second]) right below) ↔
      right.head?.any isHan = false := by
  have firstNotNul := ne_zero_of_isHan firstHan
  have secondNotNul := ne_zero_of_isHan secondHan
  have rowPaired := whole (left ++ right) (mem_of_getElem? located.getElem?_row)
  have leftPaired := paired_take_of_boundary rowPaired boundary
  rw [take_left] at leftPaired
  have both : typeBytes text [first, second] =
      (typeByte text first).bind (typeByte · second) := by
    simp only [typeBytes, bind_fun_some]
  rw [both]
  rcases plain_or_han (rowPaired.of_append_right leftPaired) with
    plain | ⟨third, fourth, rest, rfl, thirdHan, fourthHan, -⟩
  · exact iff_of_true (typed_pair_plain located leftPaired plain firstHan secondHan firstNotNul
      secondNotNul) plain
  refine iff_of_false ?_ (by simpa using thirdHan)
  rintro ⟨next, called, inserted⟩
  obtain ⟨typed, typing, behind⟩ := typed_pair_between located leftPaired firstHan secondHan
    thirdHan fourthHan firstNotNul secondNotNul
  obtain rfl := some.inj (called.symm.trans typing)
  have column := inserted.col_eq.symm.trans behind.col_eq
  simp only [length_append, length_cons, length_nil] at column
  omega

/-- The row of one Han character, with the cursor in front of it or behind. -/
def hanText (cursorCol : Int) : Textframe where
  data := [[176, 161]]
  cursorRow := 0
  cursorCol := cursorCol
  maxrowCapacity := 1

theorem pinyin_commit_behind_han :
    ∃ next, typeBytes (hanText 2) [206, 210] = some next ∧
      Located next [] ([176, 161] ++ [206, 210]) [] [] := by
  have located : Located (hanText 2) [] [176, 161] [] [] := ⟨rfl, rfl, rfl⟩
  have inserts := pinyin_commit_inserts_iff located (by decide) (by decide)
    (show isHan 206 = true by decide) (show isHan 210 = true by decide)
  exact inserts.mpr rfl

/-- In front of another Han character the two are interleaved. -/
theorem pinyin_commit_before_han :
    (typeBytes (hanText 0) [206, 210]).map (fun text => (text.data, text.cursorCol)) =
      some ([[206, 176, 210, 161]], 4) := by
  decide

/-- A byte of its own, typed into an aligned text. -/
theorem typeByte_aligned (aligned : Aligned text) {ch : UInt8} (notHan : isHan ch = false)
    (notNul : ch ≠ 0) : ∃ next, typeByte text ch = some next ∧ Aligned next := by
  obtain ⟨above, left, right, below, located, abovePaired, leftPaired, rightPaired, belowPaired⟩ :=
    aligned.exists_parts
  obtain ⟨next, called, nextLocated⟩ := located.typed notHan notNul
  have frontPaired := leftPaired.append (IsChar.single notHan).paired
  exact ⟨next, called, aligned_of_located nextLocated abovePaired frontPaired rightPaired
    belowPaired⟩

/-- A string of whole characters, typed into an aligned text. -/
theorem typeBytes_aligned {str : Row} (paired : Paired isHan str) (noNul : 0 ∉ str)
    (aligned : Aligned text) : ∃ next, typeBytes text str = some next ∧ Aligned next := by
  -- One or two bytes at a time, by the characters of the string.
  induction str using charCount.induct isHan generalizing text with
  | case1 => exact ⟨text, rfl, aligned⟩
  | case2 ch =>
    rw [mem_singleton] at noNul
    have notHan : isHan ch = false := by
      by_contra han
      obtain ⟨partner, after, impossible, -⟩ := paired.cons_marked (by simpa using han)
      contradiction
    obtain ⟨next, called, nextAligned⟩ := typeByte_aligned aligned notHan (Ne.symm noNul)
    exact ⟨next, by rw [typeBytes, called]; rfl, nextAligned⟩
  | case3 first second rest firstHan ih =>
    obtain ⟨partner, after, rest_eq, secondHan, restPaired⟩ := paired.cons_marked firstHan
    obtain ⟨rfl, rfl⟩ := rest_eq
    simp only [mem_cons, not_or] at noNul
    obtain ⟨above, left, right, below, located, abovePaired, leftPaired, rightPaired,
      belowPaired⟩ := aligned.exists_parts
    obtain ⟨typed, front, back, called, typedLocated, frontPaired, backPaired⟩ :=
      typed_pair located leftPaired rightPaired firstHan secondHan (Ne.symm noNul.1)
        (Ne.symm noNul.2.1)
    obtain ⟨next, calledRest, nextAligned⟩ := ih restPaired noNul.2.2
      (aligned_of_located typedLocated abovePaired frontPaired backPaired belowPaired)
    refine ⟨next, ?_, nextAligned⟩
    obtain ⟨middle, calledFirst, calledSecond⟩ := bind_eq_some_iff.mp called
    rw [typeBytes, calledFirst, bind_some, typeBytes, calledSecond, bind_some, calledRest]
  | case4 first second rest notHan ih =>
    rw [Bool.not_eq_true] at notHan
    rw [mem_cons, not_or] at noNul
    obtain ⟨typed, called, typedAligned⟩ := typeByte_aligned aligned notHan (Ne.symm noNul.1)
    obtain ⟨next, calledRest, nextAligned⟩ :=
      ih ((paired_cons_unmarked_iff notHan _).mp paired) noNul.2 typedAligned
    exact ⟨next, by rw [typeBytes, called, bind_some, calledRest], nextAligned⟩

end

/-! ## Deleting -/

/-- The tail of the end row, cut to the length of the start row, does not end
inside a Han character. -/
def CutOnBoundary (edit : TextEdit) : Prop :=
  0 ≤ edit.point1Row → clampRow edit.text edit.point1Row ≤ clampRow edit.text edit.point2Row →
    ∀ startLine, edit.text.data[clampRow edit.text edit.point1Row]? = some startLine →
      ∀ endLine, edit.text.data[clampRow edit.text edit.point2Row]? = some endLine →
        startLine.length ≤ endColumn endLine edit.point2Col + 1 ∨
          insideHan endLine startLine.length = false

/-- When the row that a deletion leaves is made of whole characters. -/
theorem paired_joinedLine_iff {startLine endLine : Row} (startPaired : Paired isHan startLine)
    (endPaired : Paired isHan endLine) (startCol endCol : Int) :
    Paired isHan (joinedLine startLine endLine (startColumn startLine startCol)
        (endColumn endLine endCol)) ↔
      startLine.length ≤ endColumn endLine endCol + 1 ∨
        insideHan endLine startLine.length = false := by
  have beforePaired :=
    paired_take_of_boundary startPaired (insideHan_startColumn startLine startCol)
  have endTake := paired_take_of_boundary endPaired (insideHan_endColumn_succ endLine endCol)
  rw [joinedLine, beforePaired.append_iff, ← endTake.append_iff, ← take_add]
  by_cases short : startLine.length ≤ endColumn endLine endCol + 1
  · rw [Nat.sub_eq_zero_of_le short, Nat.add_zero]
    exact iff_of_true endTake (.inl short)
  · rw [Nat.add_sub_cancel' (by omega), paired_take_iff endPaired, or_iff_right short]

/-- The tail behind the end column, of which only one byte is kept. -/
example : joinedLine [97, 98] [97, 176, 161] 0 0 = [176] := by
  decide

/-! ## Copying -/

/-- The copying loop copies whole characters when its first and its last piece
are made of them. -/
theorem extractLoop_paired {text : Textframe} (rows : ∀ row ∈ text.data, Paired isHan row)
    {startLen endCol endLen maxRow : Int} {left : Nat} {i startRow startCol lineLen : Int}
    {result : List Row} (startLen_nonneg : 0 ≤ startLen) (total : i + left = maxRow)
    (notPast : ¬ (i = 0 ∧ startCol > startLen))
    (first : 0 < left → ∀ line, text.line? startRow = some line →
      Paired isHan (substr line startCol lineLen))
    (last : endCol < endLen → ∀ line, text.line? (startRow + left - 1) = some line →
      Paired isHan (substr line 0 (endCol + 1)))
    (copied : extractLoop text startLen endCol endLen maxRow left i startRow startCol lineLen =
      some result) :
    ∀ row ∈ result, Paired isHan row := by
  induction left generalizing i startRow startCol lineLen result with
  | zero =>
    rw [extractLoop, some.injEq] at copied
    simp [← copied]
  | succ left ih =>
    rw [extractLoop, extractEnter, if_neg notPast] at copied
    simp only [bind_eq_bind, bind_some, bind_eq_some_iff, some.injEq] at copied
    obtain ⟨line, read, nextLen, next_eq, rest, copiedRest, rfl⟩ := copied
    intro row mem
    rcases mem_cons.mp mem with rfl | inRest
    · exact first (Nat.succ_pos left) line read
    refine ih (by omega) (by omega) ?_ ?_ copiedRest row inRest
    · intro more nextLine readNext
      rw [extractNextLen, readNext] at next_eq
      split_ifs at next_eq with before reaches
      · -- A row in between is copied whole.
        obtain rfl : (nextLine.length : Int) = nextLen := by simpa using next_eq
        rw [substr_zero_length]
        exact rows nextLine (Textframe.mem_of_line? readNext)
      · -- Behind the end of the last row only the line break is copied.
        rw [some.injEq] at next_eq
        rw [← next_eq]
        exact paired_nil
      · rw [some.injEq] at next_eq
        rw [← next_eq]
        apply last (by omega) nextLine
        rwa [show startRow + ((left + 1 : Nat) : Int) - 1 = startRow + 1 by omega]
    · intro inside nextLine readNext
      apply last inside nextLine
      rwa [show startRow + ((left + 1 : Nat) : Int) - 1 = startRow + 1 + left - 1 by omega]

/-- A copy from a text of whole characters is made of whole characters. -/
theorem textframeExtract_paired {text : Textframe} (nonempty : text.data ≠ [])
    (rows : ∀ row ∈ text.data, Paired isHan row) {startRow endRow : Int}
    (rows_le : startRow ≤ endRow) (nonneg : 0 ≤ endRow) {startCol endCol : Int}
    {clip : Textframe}
    (extracted : textframeExtract text startRow startCol endRow endCol = some clip) :
    ∀ row ∈ clip.data, Paired isHan row := by
  obtain ⟨startLine, endLine, clamped_le, readStart, readEnd, copied⟩ :=
    textframeExtract_cases nonempty rows_le nonneg extracted
  have startPaired := rows startLine (mem_of_getElem? readStart)
  have endPaired := rows endLine (mem_of_getElem? readEnd)
  have startBoundary := insideHan_startColumn startLine startCol
  have endBoundary := insideHan_endColumn_succ endLine endCol
  have start_le := startColumn_le startLine startCol
  refine extractLoop_paired rows (by omega) (by omega) (by omega) ?_ ?_ copied
  · intro _ line read
    rw [Textframe.line?_natCast, readStart] at read
    cases read
    rw [substr_eq]
    by_cases sameRow : clampRow text startRow = clampRow text endRow
    · rw [sameRow, readEnd, some.injEq] at readStart
      subst readStart
      rw [if_pos sameRow, show ((endColumn endLine endCol : Int) -
        startColumn endLine startCol + 1).toNat = endColumn endLine endCol + 1 -
          startColumn endLine startCol by omega]
      exact paired_between endPaired startBoundary endBoundary
    · rw [if_neg sameRow, show ((startLine.length : Int) - startColumn startLine startCol).toNat =
        startLine.length - startColumn startLine startCol by omega]
      exact paired_between startPaired startBoundary (insideHan_length startLine)
  · intro inside line read
    have lastRow : (clampRow text startRow : Int) +
        (extractedRows (clampRow text startRow) (clampRow text endRow) endLine
          (endColumn endLine endCol) : Nat) - 1 = clampRow text endRow := by
      rw [extractedRows, if_pos (by omega)]
      omega
    rw [lastRow, Textframe.line?_natCast, readEnd] at read
    cases read
    rw [← Int.natCast_zero, substr_eq, drop_zero,
      show ((endColumn endLine endCol : Int) + 1).toNat = endColumn endLine endCol + 1 by omega]
    exact paired_take_of_boundary endPaired endBoundary

/-! ## The operations behind the keys -/

section

variable {text : Textframe}

theorem newLineToEditor_aligned (aligned : Aligned text) :
    ∃ next, newLineToEditor text = some next ∧ Aligned next := by
  obtain ⟨above, left, right, below, located, abovePaired, leftPaired, rightPaired, belowPaired⟩ :=
    aligned.exists_parts
  obtain ⟨next, called, nextLocated⟩ :=
    located.newLineToEditor (insideHan_of_paired leftPaired right)
  refine ⟨next, called, aligned_of_located nextLocated ?_ paired_nil rightPaired belowPaired⟩
  intro row mem
  rcases mem_append.mp mem with inAbove | isLeft
  · exact abovePaired row inAbove
  · rw [mem_singleton.mp isLeft]
    exact leftPaired

theorem backspaceText_aligned (aligned : Aligned text) :
    ∃ next, backspaceText text = some next ∧ Aligned next := by
  obtain ⟨above, left, right, below, located, abovePaired, leftPaired, rightPaired, belowPaired⟩ :=
    aligned.exists_parts
  rcases eq_nil_or_concat_char leftPaired with rfl | ⟨before, char, rfl, beforePaired, isChar⟩
  · rcases eq_nil_or_concat' above with rfl | ⟨start, prev, rfl⟩
    · exact ⟨text, backspaceText_first located, aligned⟩
    obtain ⟨next, front, back, called, split, column, nextLocated⟩ := backspaceText_join located
    -- The cursor goes to a boundary of the joined row, if not always to the seam.
    have joinedPaired : Paired isHan (front ++ back) := by
      rw [split]
      exact (abovePaired prev (by simp)).append rightPaired
    have frontPaired := paired_take_posColumn joinedPaired (-1)
    rw [split, ← column, ← split, take_left] at frontPaired
    exact ⟨next, called, aligned_of_located nextLocated
      (fun row mem => abovePaired row (mem_append_left _ mem)) frontPaired
      (joinedPaired.of_append_right frontPaired) belowPaired⟩
  · obtain ⟨next, called, nextLocated⟩ := backspaceText_char isChar beforePaired located
    exact ⟨next, called,
      aligned_of_located nextLocated abovePaired beforePaired rightPaired belowPaired⟩

theorem textframeInsert_aligned (aligned : Aligned text) {inText : Textframe}
    (whole : WholeClip inText) :
    ∃ next, textframeInsert text inText text.cursorRow text.cursorCol = some next ∧
      Aligned next := by
  obtain ⟨above, left, right, below, located, abovePaired, leftPaired, rightPaired, belowPaired⟩ :=
    aligned.exists_parts
  obtain ⟨next, col, front, last, called, col_eq, glued, nextLocated⟩ :=
    located.textframeInsert whole.nonempty
  have rowPaired := leftPaired.append rightPaired
  have frontPaired : Paired isHan ((left ++ right).take col) := by
    rw [col_eq]
    exact paired_take_cursorColumn rowPaired _
  have backPaired : Paired isHan ((left ++ right).drop col) := by
    rw [← take_append_drop col (left ++ right)] at rowPaired
    exact rowPaired.of_append_right frontPaired
  have gluedPaired : ∀ row ∈ front ++ [last], Paired isHan row := by
    obtain ⟨head, rest, data_eq⟩ := exists_cons_of_ne_nil whole.nonempty
    have clipRows := whole.rows
    rw [data_eq] at clipRows
    rw [← glued, data_eq, glue_concat_cons]
    intro row mem
    rcases mem_append.mp mem with inAbove | inRest
    · exact abovePaired row inAbove
    · rcases mem_cons.mp inRest with rfl | inTail
      · exact frontPaired.append (clipRows head mem_cons_self)
      · exact clipRows row (mem_cons_of_mem _ inTail)
  exact ⟨next, called, aligned_of_located nextLocated
    (fun row mem => gluedPaired row (mem_append_left _ mem)) (gluedPaired last (by simp))
    backPaired belowPaired⟩

theorem textframeDelete_aligned {edit : TextEdit} (aligned : Aligned edit.text)
    (point2 : 0 ≤ edit.point2Row) (cut : CutOnBoundary edit) :
    ∃ rest, textframeDelete edit.text edit.point1Row edit.point1Col edit.point2Row
        edit.point2Col = some rest ∧ rest.data ≠ [] ∧
      ∀ row ∈ rest.data, Paired isHan row := by
  have nonempty := aligned.cursorValid.data_ne_nil
  rcases textframeDelete_cases nonempty point2 edit.point1Col edit.point2Col with
    called | ⟨startLine, endLine, point1, rows_le, readStart, readEnd, called⟩
  · exact ⟨_, called, nonempty, aligned.rows⟩
  refine ⟨_, called, by simp [deleted], ?_⟩
  intro row mem
  rcases mem_append.mp mem with inAbove | inRest
  · exact aligned.rows row (mem_of_mem_take inAbove)
  rcases mem_cons.mp inRest with rfl | inBelow
  · exact (paired_joinedLine_iff (aligned.rows startLine (mem_of_getElem? readStart))
      (aligned.rows endLine (mem_of_getElem? readEnd)) _ _).mpr
        (cut point1 rows_le startLine readStart endLine readEnd)
  · exact aligned.rows row (mem_of_mem_drop inBelow)

/-- The operations behind the keys keep a text of whole characters, for
clipboards of whole characters and deletions that do not cut one. -/
theorem aligned_maintained : Maintained Aligned WholeClip CutOnBoundary where
  valid _ aligned := aligned.cursorValid
  placed text next aligned same placed := aligned_of_placed (same ▸ aligned.rows) placed
  newLine _ aligned := newLineToEditor_aligned aligned
  erase _ aligned := backspaceText_aligned aligned
  printable _ c aligned low high := by
    refine typeByte_aligned aligned (isHan_printable high) ?_
    intro isNul
    have code := toNat_printable high
    rw [isNul, UInt8.toNat_zero] at code
    omega
  delete edit aligned point2 cut := by
    obtain ⟨rest, called, nonempty, rows⟩ := textframeDelete_aligned aligned point2 cut
    exact ⟨rest, called, nonempty, fun _ same placed => aligned_of_placed (same ▸ rows) placed⟩
  copy edit aligned point2 ordered inText extracted := by
    have nonempty := aligned.cursorValid.data_ne_nil
    have rows_le := rows_le_of_ordered ordered
    exact ⟨textframeExtract_ne_nil nonempty rows_le point2 extracted,
      textframeExtract_paired nonempty aligned.rows rows_le point2 extracted⟩
  paste _ _ aligned whole := textframeInsert_aligned aligned whole

end

/-! ## Sessions -/

/-- The conditions on the steps of a session.  No deletion cuts a character,
and the place a search goes to ends on a character boundary.  What the pinyin input
types and what is copied elsewhere is made of whole characters. -/
def SplitsNone (session : Session) : Event → Prop
  | .key c => ∀ range ∈ deletes session.edit session.clipBoard c, CutOnBoundary range
  | .mouse x y _ => 0 ≤ (mousePosTransform session.edit.area x y).2
  | .search pattern => pattern ≠ [] ∧
      ∀ i j row, NextPlace session.edit.text pattern (toLex (i, j)) →
        session.edit.text.data[i]? = some row → insideHan row (j + pattern.length) = false
  | .commit str => Paired isHan str ∧ 0 ∉ str
  | .setStr str => Paired isHan str
  | .copied inText => WholeClip inText
  | .layout _ _ => True

/-- A session of whole characters. -/
abbrev SessionWhole : Session → Prop :=
  Holds Aligned WholeClip

/-- A step that splits no character keeps the session whole. -/
theorem SessionWhole.step {session next : Session} {event : Event}
    (whole : SessionWhole session) (splitsNone : SplitsNone session event)
    (stepped : session.step event = some next) : SessionWhole next := by
  refine aligned_maintained.step whole ?_ stepped
  cases event with
  | key c => exact splitsNone
  | mouse x y mouseOpt => exact splitsNone
  | search pattern =>
    refine ⟨splitsNone.1, ?_⟩
    intro i j row isNext read fits
    obtain ⟨above, below, -, located⟩ := exists_located_of_read read fits
    have boundary := splitsNone.2 i j row isNext read
    refine ⟨whole.text.rows, _, _, _, _, located, ?_⟩
    exact paired_take_of_boundary (whole.text.rows row (mem_of_getElem? read)) boundary
  | commit str =>
    intro text called
    obtain ⟨typed, calledAgain, typedAligned⟩ :=
      typeBytes_aligned splitsNone.1 splitsNone.2 whole.text
    rw [called] at calledAgain
    cases calledAgain
    exact typedAligned
  | setStr str =>
    have located : Located (lineEditSetStr str) [] [] str [] := ⟨rfl, rfl, rfl⟩
    exact aligned_of_located located (by simp) paired_nil splitsNone (by simp)
  | copied inText => exact splitsNone
  | layout area scale => exact trivial

/-- In every state of such a session the runs of Han bytes are even and the
cursor is on a character boundary. -/
theorem han_characters_whole_throughout {start session : Session} (whole : SessionWhole start)
    (reached : Reached Session.step SplitsNone start session) :
    (∀ row ∈ session.edit.text.data, ∀ before run after, row = before ++ run ++ after →
        MaximalRun isHan before run after → Even run.length) ∧
      ∃ above left right below, Located session.edit.text above left right below ∧
        insideHan (left ++ right) left.length = false := by
  have kept : SessionWhole session :=
    reached.invariant (fun _ _ _ => SessionWhole.step) whole
  refine ⟨fun row mem => (paired_iff_runs_even row).mp (kept.text.rows row mem), ?_⟩
  obtain ⟨above, left, right, below, located, leftPaired⟩ := kept.text.cursor
  exact ⟨above, left, right, below, located, insideHan_of_paired leftPaired right⟩

/-- A session with two Han characters. -/
def hanSession : Session where
  edit := { makeTextEdit ⟨0, 0, 0⟩ none with text := lineEditSetStr [176, 161, 176, 162] }
  clipBoard := none

theorem hanSession_whole : SessionWhole hanSession where
  text := ⟨by decide, [], [], [176, 161, 176, 162], [], ⟨rfl, rfl, rfl⟩, by decide⟩
  points := ⟨by decide, by decide⟩
  clipBoard _ mem := absurd mem (by simp [hanSession])

theorem han_characters_whole_after_letter :
    ∃ session, hanSession.step (.key 97) = some session ∧
      session.edit.text.data = [[97, 176, 161, 176, 162]] ∧
      ∀ row ∈ session.edit.text.data, ∀ before run after, row = before ++ run ++ after →
        MaximalRun isHan before run after → Even run.length := by
  have typed : (hanSession.step (.key 97)).map (fun session => session.edit.text.data) =
      some [[97, 176, 161, 176, 162]] := by
    decide
  obtain ⟨session, stepped, data_eq⟩ := map_eq_some_iff.mp typed
  have noDeletion : deletes hanSession.edit hanSession.clipBoard 97 = none := by decide
  have splitsNone : SplitsNone hanSession (.key 97) := by simp [SplitsNone, noDeletion]
  exact ⟨session, stepped, data_eq,
    (han_characters_whole_throughout hanSession_whole (.step .start splitsNone stepped)).1⟩

/-- The second byte of one character and the first of the next are found as a
character, and the cursor is left inside the next one. -/
theorem search_hit_ends_inside_han :
    SessionWhole hanSession ∧ Paired isHan [161, 176] ∧
      ∃ session, hanSession.step (.search [161, 176]) = some session ∧
        session.edit.text.cursorRow = 0 ∧ session.edit.text.cursorCol = 3 ∧
        session.edit.text.data = [[176, 161, 176, 162]] ∧
        insideHan [176, 161, 176, 162] 3 = true := by
  have found : (hanSession.step (.search [161, 176])).map (fun session =>
      (session.edit.text.cursorRow, session.edit.text.cursorCol, session.edit.text.data)) =
        some (0, 3, [[176, 161, 176, 162]]) := by
    decide
  obtain ⟨session, stepped, text_eq⟩ := map_eq_some_iff.mp found
  rw [Prod.mk.injEq, Prod.mk.injEq] at text_eq
  exact ⟨hanSession_whole, by decide, session, stepped, text_eq.1, text_eq.2.1, text_eq.2.2,
    by decide⟩

/-- Insert texts at the cursor, as `CTRL_V` without a selection does. -/
def pasteAll (text : Textframe) (clips : List Textframe) : Option Textframe :=
  clips.foldlM (fun text clip => textframeInsert text clip text.cursorRow text.cursorCol) text

/-- They stand in their order in front of the cursor, and nothing behind it changes. -/
theorem pastes_in_order {text : Textframe} {above below : List Row} {left right : Row}
    (located : Located text above left right below) (leftPaired : Paired isHan left)
    {clips : List Textframe} (whole : ∀ clip ∈ clips, WholeClip clip) :
    ∃ next front last, pasteAll text clips = some next ∧
      Located next front last right below ∧ joinLines lineFeed (front ++ [last]) =
        joinLines lineFeed (above ++ [left]) ++ clips.flatMap (joinLines lineFeed ·.data) := by
  induction clips generalizing text above left with
  | nil => exact ⟨text, above, left, rfl, located, (append_nil _).symm⟩
  | cons clip clips ih =>
    have isWhole := whole clip mem_cons_self
    obtain ⟨pasted, col, front, last, called, col_eq, glued, moved⟩ :=
      located.textframeInsert isWhole.nonempty
    rw [cursorColumn, clampColumn_of_le (by simp), insideHan_of_paired leftPaired,
      if_neg Bool.false_ne_true] at col_eq
    rw [col_eq, take_left] at glued
    rw [col_eq, drop_left] at moved
    have lastPaired : Paired isHan last := by
      obtain ⟨head, rest, data_eq⟩ := exists_cons_of_ne_nil isWhole.nonempty
      have rows := isWhole.rows
      rw [data_eq] at glued rows
      rw [glue_concat_cons] at glued
      have isLast := congrArg getLast? glued
      rw [getLast?_concat, getLast?_append_cons] at isLast
      rcases mem_cons.mp (mem_of_getLast? isLast) with rfl | isRest
      · exact leftPaired.append (rows head mem_cons_self)
      · exact rows last (mem_cons_of_mem _ isRest)
    rw [pasteAll, foldlM_cons, called, flatMap_cons, ← append_assoc,
      ← joinLines_glue _ (by simp) isWhole.nonempty, glued]
    exact ih moved lastPaired fun other isIn => whole other (mem_cons_of_mem _ isIn)

theorem pastes_han_twice :
    ∃ next front last,
      pasteAll (lineEditSetStr []) (replicate 2 (lineEditSetStr [176, 161])) = some next ∧
      Located next front last [] [] ∧
      joinLines lineFeed (front ++ [last]) = [176, 161, 176, 161] := by
  have located : Located (lineEditSetStr []) [] [] [] [] := ⟨rfl, rfl, rfl⟩
  refine pastes_in_order located paired_nil fun clip isClip => ?_
  rw [eq_of_mem_replicate isClip]
  exact ⟨by decide, by decide⟩

end XEditor.Edit
