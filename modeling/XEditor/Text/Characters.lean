import XEditor.Lib.Buffer
import XEditor.Text.Moves

/-!
# Texts of whole characters

In an `Aligned` text every row consists of whole characters and the cursor is
between two of them.  There the primitives act on characters.
-/

namespace XEditor.Text

open List Buffer Pairing

/-- Every row is made of whole characters, and the cursor does not cut one. -/
structure Aligned (text : Textframe) : Prop where
  rows : ∀ row ∈ text.data, Paired isHan row
  cursor : ∃ above left right below, Located text above left right below ∧ Paired isHan left

variable {text : Textframe} {row : Row}

theorem Aligned.cursorValid (aligned : Aligned text) : CursorValid text := by
  obtain ⟨above, left, right, below, located, -⟩ := aligned.cursor
  exact located.cursorValid

/-- Behind whole characters no character is cut. -/
theorem insideHan_of_paired {left : Row} (paired : Paired isHan left) (right : Row) :
    insideHan (left ++ right) left.length = false := by
  have even : ¬ markedSuffix isHan left % 2 = 1 := by
    rw [paired.markedSuffix_even]
    decide
  rw [insideHan_append, decide_eq_false even, Bool.and_false]

/-- Between the two bytes of a character one is. -/
theorem insideHan_between {left : Row} {first second : UInt8} (paired : Paired isHan left)
    (firstHan : isHan first = true) (secondHan : isHan second = true) (right : Row) :
    insideHan (left ++ [first] ++ second :: right) (left ++ [first]).length = true := by
  have odd : markedSuffix isHan (left ++ [first]) % 2 = 1 := by
    have even := paired.markedSuffix_even
    rw [markedSuffix_concat_marked firstHan]
    omega
  rw [insideHan_append, decide_eq_true odd]
  simp [secondHan]

/-- Cutting a row of whole characters at a boundary leaves whole characters. -/
theorem paired_take_of_boundary {col : Nat} (paired : Paired isHan row)
    (boundary : insideHan row col = false) : Paired isHan (row.take col) := by
  rw [← take_append_drop col row] at paired
  apply paired.of_append_left
  by_contra odd
  obtain ⟨-, -, second, after, -, drop_eq, -, secondHan, -⟩ := paired.split_pair (by omega)
  have han : isHanAt row col = true := by
    rw [isHanAt, ← head?_drop, drop_eq]
    simpa using secondHan
  have isOdd : markedSuffix isHan (row.take col) % 2 = 1 := by omega
  rw [insideHan, han, decide_eq_true isOdd] at boundary
  contradiction

section

variable (paired : Paired isHan row)
include paired

/-- A column aligned to the right is behind whole characters. -/
theorem paired_take_cursorColumn (c : Int) : Paired isHan (row.take (cursorColumn row c)) := by
  unfold cursorColumn
  cases inside : insideHan row (clampColumn row c) with
  | false => exact paired_take_of_boundary paired inside
  | true =>
    have odd : markedSuffix isHan (row.take (clampColumn row c)) % 2 = 1 := by
      rw [insideHan, Bool.and_eq_true, decide_eq_true_iff] at inside
      exact inside.2
    rw [if_pos rfl]
    rw [← take_append_drop (clampColumn row c) row] at paired
    obtain ⟨before, first, second, after, take_eq, drop_eq, firstHan, secondHan, beforePaired,
      -⟩ := paired.split_pair odd
    have second_eq : row[clampColumn row c]? = some second := by
      rw [← head?_drop, drop_eq, head?_cons]
    rw [take_add_one, take_eq, second_eq, append_assoc]
    exact beforePaired.append (IsChar.pair firstHan secondHan).paired

theorem paired_take_posColumn (c : Int) : Paired isHan (row.take (posColumn row c)) :=
  paired_take_cursorColumn paired _

/-- Cutting such a row anywhere else cuts a character. -/
theorem paired_take_iff (col : Nat) : Paired isHan (row.take col) ↔ insideHan row col = false := by
  refine ⟨?_, paired_take_of_boundary paired⟩
  intro takePaired
  by_cases inside : col ≤ row.length
  · have boundary := insideHan_of_paired takePaired (row.drop col)
    rwa [take_append_drop, length_take_of_le inside] at boundary
  · rw [insideHan, isHanAt, getElem?_eq_none (by omega)]
    rfl

/-- The bytes between two boundaries are whole characters. -/
theorem paired_between {first last : Nat} (firstBoundary : insideHan row first = false)
    (lastBoundary : insideHan row last = false) :
    Paired isHan ((row.drop first).take (last - first)) := by
  by_cases ordered : first ≤ last
  · have split : row.take first ++ (row.drop first).take (last - first) = row.take last := by
      rw [← take_add, Nat.add_sub_cancel' ordered]
    have whole := paired_take_of_boundary paired lastBoundary
    rw [← split] at whole
    exact whole.of_append_right (paired_take_of_boundary paired firstBoundary)
  · rw [Nat.sub_eq_zero_of_le (by omega)]
    exact paired_nil

end

/-- A text around an aligned cursor. -/
theorem aligned_of_located {above below : List Row} {left right : Row}
    (located : Located text above left right below) (abovePaired : ∀ row ∈ above, Paired isHan row)
    (leftPaired : Paired isHan left) (rightPaired : Paired isHan right)
    (belowPaired : ∀ row ∈ below, Paired isHan row) :
    Aligned text := by
  refine ⟨?_, above, left, right, below, located, leftPaired⟩
  intro row mem
  rw [located.data_eq, mem_append, mem_cons] at mem
  rcases mem with inAbove | rfl | inBelow
  · exact abovePaired row inAbove
  · exact leftPaired.append rightPaired
  · exact belowPaired row inBelow

/-- The parts of an aligned text are made of whole characters. -/
theorem Aligned.exists_parts (aligned : Aligned text) :
    ∃ above left right below, Located text above left right below ∧
      (∀ row ∈ above, Paired isHan row) ∧ Paired isHan left ∧ Paired isHan right ∧
      ∀ row ∈ below, Paired isHan row := by
  obtain ⟨above, left, right, below, located, leftPaired⟩ := aligned.cursor
  have rows := aligned.rows
  rw [located.data_eq] at rows
  refine ⟨above, left, right, below, located, ?_, leftPaired, ?_, ?_⟩
  · exact fun row mem => rows row (mem_append_left _ mem)
  · have rowPaired := rows (left ++ right) (mem_append_right _ mem_cons_self)
    exact rowPaired.of_append_right leftPaired
  · exact fun row mem => rows row (mem_append_right _ (mem_cons_of_mem _ mem))

/-- A cursor on a boundary is aligned when the rows are made of whole
characters. -/
theorem aligned_of_placed (rows : ∀ row ∈ text.data, Paired isHan row) (placed : Placed text) :
    Aligned text := by
  obtain ⟨above, left, right, below, located, boundary⟩ := placed
  refine ⟨rows, above, left, right, below, located, ?_⟩
  have rowPaired : Paired isHan (left ++ right) := by
    apply rows
    rw [located.data_eq]
    exact mem_append_right _ mem_cons_self
  have leftPaired := paired_take_of_boundary rowPaired boundary
  rwa [take_left] at leftPaired

namespace Located

variable {above below : List Row} {left right char : Row}

/-- A byte of its own is typed in front of the cursor. -/
theorem typed (located : Located text above left right below) {ch : UInt8}
    (notHan : isHan ch = false) (notNul : ch ≠ 0) :
    ∃ next, (Text.putcToStr text ch).bind moveToNextChar = some next ∧
      Located next above (left ++ [ch]) right below := by
  obtain ⟨moved, movedLocated, called⟩ := located.putcToStr_next notNul
  have boundary : insideHan (left ++ [ch] ++ right) (left ++ [ch]).length = false := by
    rw [insideHan_append, markedSuffix_concat_unmarked notHan]
    simp
  rw [movedLocated.adjustCursor_boundary boundary] at called
  exact ⟨moved, called, movedLocated⟩

variable (isChar : IsChar isHan char) (leftPaired : Paired isHan left)
include isChar leftPaired

/-- `move_to_previous_char` steps back over a character. -/
theorem stepBack (located : Located text above (left ++ char) right below) :
    ∃ moved, moveToPreviousChar text = some moved ∧
      Located moved above left (char ++ right) below := by
  cases isChar with
  | single notHan =>
    obtain ⟨moved, movedLocated, called⟩ := located.moveToPreviousChar_concat
    rw [movedLocated.adjustCursor_boundary (insideHan_of_paired leftPaired _)] at called
    exact ⟨moved, called, movedLocated⟩
  | pair firstHan secondHan =>
    rename_i first second
    -- One byte back the cursor is between the two bytes of the character.
    have split : Located text above (left ++ [first] ++ [second]) right below := by
      simpa using located
    obtain ⟨moved, movedLocated, called⟩ := split.moveToPreviousChar_concat
    exact ⟨_, called,
      movedLocated.adjustCursor_left (insideHan_between leftPaired firstHan secondHan _)⟩

/-- `move_to_next_char` steps forward over a character. -/
theorem stepForward (located : Located text above left (char ++ right) below) :
    ∃ moved, moveToNextChar text = some moved ∧ Located moved above (left ++ char) right below := by
  have charPaired := leftPaired.append isChar.paired
  cases isChar with
  | single notHan =>
    obtain ⟨moved, movedLocated, called⟩ := located.moveToNextChar_cons
    rw [movedLocated.adjustCursor_boundary (insideHan_of_paired charPaired _)] at called
    exact ⟨moved, called, movedLocated⟩
  | pair firstHan secondHan =>
    obtain ⟨moved, movedLocated, called⟩ := located.moveToNextChar_cons
    have stepped :=
      movedLocated.adjustCursor_right (insideHan_between leftPaired firstHan secondHan _)
    rw [append_assoc] at stepped
    exact ⟨_, called, stepped⟩

/-- `backspace_to_str` removes the character behind the cursor. -/
theorem removeChar (located : Located text above left (char ++ right) below) :
    ∃ next, Text.backspaceToStr text = some next ∧ Located next above left right below := by
  obtain ⟨next, called, nextLocated⟩ := located.backspaceToStr (insideHan_of_paired leftPaired _)
  rw [← isChar.length_eq, drop_left] at nextLocated
  exact ⟨next, called, nextLocated⟩

end Located

end XEditor.Text
