import XEditor.Text.Characters
import XEditor.Text.Normalise

/-!
# Aligned positions

What `textframe_adjust_r_c` makes of a position.  A row index that is too large is
clamped to the last row, but a negative one is moved behind it, and then nothing is
done to the column.
-/

namespace XEditor.Text

open List Buffer Pairing

/-- The pairs of `pos` and `dir` that the callers use. -/
def alignments : List (Int × Int) :=
  [(0, -1), (0, 1), (1, 1)]

/-- A column holds the last byte of a character. -/
def EndsChar (line : Row) (col : Nat) : Prop :=
  ∃ before char after, line = before ++ (char ++ after) ∧ Paired isHan before ∧
    IsChar isHan char ∧ col + 1 = (before ++ char).length

/-- What a column is aligned to: a place in the row, between two characters or at the
last byte of one where the row is made of characters, that is not moved again. -/
structure AlignedColumn (line : Row) (pos dir : Int) (col : Nat) : Prop where
  le : col ≤ line.length
  between : Paired isHan line → pos = 0 → Paired isHan (line.take col)
  last : Paired isHan line → pos = 1 → col < line.length → EndsChar line col
  again : adjustColumn line col pos dir = col

/-- A position is in the text and aligned. -/
def Usable (text : Textframe) (pos dir : Int) (position : Int × Int) : Prop :=
  (∃ (r col : Nat) (line : Row), position = (↑r, ↑col) ∧ text.data[r]? = some line ∧
    AlignedColumn line pos dir col) ∧
  textframeAdjustRC text position.1 position.2 pos dir = position

variable {line : Row} {col : Nat}

/-- In front of the next boundary a character ends. -/
theorem endsChar_of_boundary (paired : Paired isHan line) (inside : col < line.length)
    (boundary : insideHan line (col + 1) = false) : EndsChar line col := by
  have length_eq : (line.take (col + 1)).length = col + 1 := length_take_of_le inside
  rcases eq_nil_or_concat_char (paired_take_of_boundary paired boundary) with
    empty | ⟨before, char, split, beforePaired, isChar⟩
  · rw [empty] at length_eq
    cases length_eq
  refine ⟨before, char, line.drop (col + 1), ?_, beforePaired, isChar, ?_⟩
  · rw [← append_assoc, ← split, take_append_drop]
  · rw [← split, length_eq]

/-- A boundary stays where it is. -/
theorem adjustColumn_of_boundary (le : col ≤ line.length) (boundary : insideHan line col = false)
    (dir : Int) : adjustColumn line col 0 dir = col := by
  rw [adjustColumn_left, clampColumn_of_le le, boundary, if_neg Bool.false_ne_true]

/-- The column behind the first byte of a character does not hold a first byte. -/
theorem startsHan_endColumn (line : Row) (c : Int) : startsHan line (endColumn line c) = false := by
  unfold endColumn
  cases starts : startsHan line (clampColumn line c) with
  | false => exact starts
  | true =>
    rw [startsHan, Bool.and_eq_true, decide_eq_true_iff] at starts
    have odd : ¬ markedSuffix isHan (line.take (clampColumn line c + 1)) % 2 = 0 := by
      rw [markedSuffix_take_succ starts.1]
      omega
    rw [if_pos rfl, startsHan, decide_eq_false odd, Bool.and_false]

/-- Every column is aligned in one call. -/
theorem exists_alignedColumn {pos dir : Int} (used : (pos, dir) ∈ alignments) (line : Row)
    (c : Int) :
    ∃ col : Nat, adjustColumn line c pos dir = col ∧ AlignedColumn line pos dir col := by
  have left {col : Nat} (le : col ≤ line.length) (boundary : insideHan line col = false)
      (dir : Int) : AlignedColumn line 0 dir col :=
    ⟨le, fun paired _ => paired_take_of_boundary paired boundary, nofun,
      adjustColumn_of_boundary le boundary dir⟩
  simp only [alignments, mem_cons, Prod.mk.injEq, not_mem_nil, or_false] at used
  rcases used with ⟨rfl, rfl⟩ | ⟨rfl, rfl⟩ | ⟨rfl, rfl⟩
  · exact ⟨startColumn line c, adjustColumn_start line c,
      left (startColumn_le line c) (insideHan_startColumn line c) (-1)⟩
  · exact ⟨cursorColumn line c, adjustColumn_cursor line c,
      left (cursorColumn_le line c) (insideHan_cursorColumn line c) 1⟩
  · refine ⟨endColumn line c, adjustColumn_end line c, endColumn_le line c, nofun, ?_, ?_⟩
    · exact fun paired _ inside =>
        endsChar_of_boundary paired inside (insideHan_endColumn_succ line c)
    · rw [adjustColumn_right, clampColumn_of_le (endColumn_le line c), startsHan_endColumn,
        if_neg Bool.false_ne_true]

/-- The result is a usable position if and only if the row index is not negative. -/
theorem adjusted_usable_iff {text : Textframe} (nonempty : text.data ≠ []) {pos dir : Int}
    (used : (pos, dir) ∈ alignments) (r c : Int) :
    Usable text pos dir (textframeAdjustRC text r c pos dir) ↔ 0 ≤ r := by
  constructor
  · rintro ⟨⟨row, col, line, position_eq, read, -⟩, -⟩
    by_contra negative
    rw [textframeAdjustRC_of_neg text (by omega), Prod.mk.injEq, Textframe.maxrow] at position_eq
    have bound := (List.getElem?_eq_some_iff.mp read).1
    omega
  · intro nonneg
    have read := getElem?_eq_getElem (clampRow_lt nonempty r)
    obtain ⟨col, column, isAligned⟩ := exists_alignedColumn used _ c
    rw [textframeAdjustRC_clampRow nonempty nonneg, textframeAdjustRC_of_line read, column]
    refine ⟨⟨_, col, _, rfl, read, isAligned⟩, ?_⟩
    rw [textframeAdjustRC_of_line read, isAligned.again]

/-- Two rows, of which the first ends in a Han character. -/
def twoLines : Textframe where
  data := [[97, 176, 161], [98]]
  cursorRow := 0
  cursorCol := 0
  maxrowCapacity := 2

theorem adjusted_usable_twoLines : Usable twoLines 0 1 (0, 3) :=
  (adjusted_usable_iff (by decide) (by decide) 0 2).mpr (Int.le_refl 0)

/-- A negative row index is moved two rows behind the last one. -/
theorem negative_row_behind : textframeAdjustRC twoLines (-1) 0 0 (-1) = (3, 0) ∧
    ¬ Usable twoLines 0 (-1) (textframeAdjustRC twoLines (-1) 0 0 (-1)) := by
  refine ⟨by decide, ?_⟩
  rintro ⟨-, again⟩
  exact absurd again (by decide)

end XEditor.Text
