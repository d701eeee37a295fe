import XEditor.Lib.Pairing

/-!
# Rows of text

A row of a text frame is a C string.  It is represented by the bytes before
its terminating NUL, so `strlen` is the length of the list.  Bytes from 160 on
belong to two-byte Han characters; every other byte is a character of its own.

The functions here are the string helpers of `textframe.c` together with the
column part of `textframe_adjust_r_c`.
-/

namespace XEditor.Text

open List Option Pairing

/-- The bytes of a C string before its terminator. -/
abbrev Row := List UInt8

/-- The test `ch >= 160` that recognizes a byte of a Han character. -/
def isHan (byte : UInt8) : Bool :=
  decide (160 ≤ byte)

def lineFeed : UInt8 := 10
def carriageReturn : UInt8 := 13

/-- Source `strcat`: the first `len1` bytes of one string followed by the first
`len2` bytes of another. -/
def strcat (str1 str2 : Row) (len1 len2 : Int) : Row :=
  str1.take len1.toNat ++ str2.take len2.toNat

/-- Source `substr`: at most `len` bytes starting at `startIndex`. -/
def substr (src : Row) (startIndex len : Int) : Row :=
  if startIndex < 0 then src
  else
    let maxLen : Int := src.length - startIndex
    let len := if len > maxLen then maxLen else len
    let len := if len < 0 then 0 else len
    (src.drop startIndex.toNat).take len.toNat

theorem strcat_length (str1 str2 : Row) :
    strcat str1 str2 str1.length str2.length = str1 ++ str2 := by
  simp [strcat]

theorem natCast_not_neg (n : Nat) : ¬ (n : Int) < 0 := by omega

/-- Clipping the length to the end of the string and to zero does not change
which bytes are copied. -/
theorem substr_eq (src : Row) (start : Nat) (len : Int) :
    substr src start len = (src.drop start).take len.toNat := by
  simp only [substr, if_neg (natCast_not_neg _), Int.toNat_natCast]
  split_ifs with tooLong negative negative
  · rw [drop_eq_nil_of_le (by omega)]
    simp
  · have whole : (src.drop start).length ≤ len.toNat := by
      rw [length_drop]
      omega
    rw [take_of_length_le whole]
    exact take_of_length_le (by rw [length_drop]; omega)
  · rw [show len.toNat = 0 by omega]
    rfl
  · rfl

@[simp]
theorem substr_zero_length (src : Row) : substr src 0 src.length = src := by
  have := substr_eq src 0 src.length
  simpa using this

theorem substr_zero_zero (src : Row) : substr src 0 0 = [] := by
  have empty := substr_eq src 0 0
  rwa [Int.natCast_zero, Int.toNat_zero, take_zero] at empty

/-! ## Columns and Han characters -/

/-- Whether a column holds a byte of a Han character. -/
def isHanAt (row : Row) (col : Nat) : Bool :=
  row[col]?.any isHan

/-- The backward loop of `textframe_adjust_r_c`: how many Han bytes in a row
end at a column, that column included. -/
def hanCount (line : Row) : Nat → Nat
  | 0 => if isHanAt line 0 then 1 else 0
  | col + 1 => if isHanAt line (col + 1) then hanCount line col + 1 else 0

/-- The column part of `textframe_adjust_r_c` on the row it has selected. -/
def adjustColumn (line : Row) (c pos dir : Int) : Int :=
  let len : Int := line.length
  let c := if c > len then len else c
  let c := if c < 0 then 0 else c
  if c < len ∧ isHanAt line c.toNat then
    let count : Int := hanCount line c.toNat
    let c := if pos = 0 ∧ count % 2 = 0 then c + dir else c
    if pos = 1 ∧ count % 2 = 1 then c + dir else c
  else c

/-- The clamping part of `textframe_adjust_r_c`. -/
def clampColumn (line : Row) (c : Int) : Nat :=
  min c.toNat line.length

/-- A column is inside a Han character when an odd number of Han bytes stands
directly before a Han byte. -/
def insideHan (line : Row) (col : Nat) : Bool :=
  isHanAt line col && decide (markedSuffix isHan (line.take col) % 2 = 1)

/-- A column holds the first byte of a Han character when an even number of
Han bytes stands directly before a Han byte. -/
def startsHan (line : Row) (col : Nat) : Bool :=
  isHanAt line col && decide (markedSuffix isHan (line.take col) % 2 = 0)

variable {col : Nat} {line : Row}

theorem isHanAt_eq_true_iff {row : Row} :
    isHanAt row col = true ↔ ∃ byte, row[col]? = some byte ∧ isHan byte = true := by
  simp [isHanAt, Option.any_eq_true]

theorem lt_length_of_isHanAt (han : isHanAt line col = true) : col < line.length := by
  obtain ⟨byte, byte_eq, -⟩ := isHanAt_eq_true_iff.mp han
  exact (List.getElem?_eq_some_iff.mp byte_eq).1

theorem markedSuffix_take_succ (han : isHanAt line col = true) :
    markedSuffix isHan (line.take (col + 1)) = markedSuffix isHan (line.take col) + 1 := by
  obtain ⟨byte, byte_eq, byteHan⟩ := isHanAt_eq_true_iff.mp han
  rw [take_add_one, byte_eq]
  exact markedSuffix_concat_marked byteHan _

theorem markedSuffix_take_succ_of_not (bound : col < line.length)
    (notHan : isHanAt line col = false) :
    markedSuffix isHan (line.take (col + 1)) = 0 := by
  rw [take_add_one, getElem?_eq_getElem bound]
  refine markedSuffix_concat_unmarked ?_ _
  simpa [isHanAt, bound] using notHan

/-- The backward loop computes the length of the run of Han bytes that ends at
the column. -/
theorem hanCount_eq (bound : col < line.length) :
    hanCount line col = markedSuffix isHan (line.take (col + 1)) := by
  induction col with
  | zero =>
    cases han : isHanAt line 0 with
    | true => rw [markedSuffix_take_succ han]; simp [hanCount, han]
    | false => rw [markedSuffix_take_succ_of_not bound han]; simp [hanCount, han]
  | succ col ih =>
    cases han : isHanAt line (col + 1) with
    | true => rw [markedSuffix_take_succ han, ← ih (by omega)]; simp [hanCount, han]
    | false => rw [markedSuffix_take_succ_of_not bound han]; simp [hanCount, han]

theorem clampColumn_le (line : Row) (c : Int) : clampColumn line c ≤ line.length :=
  Nat.min_le_right _ _

theorem clampColumn_of_le (bound : col ≤ line.length) : clampColumn line col = col := by
  simp [clampColumn, bound]

private theorem clamp_eq (line : Row) (c : Int) :
    (if (if c > line.length then (line.length : Int) else c) < 0 then 0
      else if c > line.length then (line.length : Int) else c) = clampColumn line c := by
  unfold clampColumn
  split_ifs <;> omega

/-- A column moves by `dir` when it holds a Han byte with an even number of them up to
it for `pos = 0`, and an odd one for `pos = 1`. -/
private theorem adjustColumn_eq (line : Row) (c pos dir : Int) :
    adjustColumn line c pos dir =
      if isHanAt line (clampColumn line c) = true ∧
        (pos = 0 ∧ markedSuffix isHan (line.take (clampColumn line c)) % 2 = 1 ∨
          pos = 1 ∧ markedSuffix isHan (line.take (clampColumn line c)) % 2 = 0)
      then clampColumn line c + dir else clampColumn line c := by
  simp only [adjustColumn, clamp_eq, Int.toNat_natCast]
  cases han : isHanAt line (clampColumn line c) with
  | false => simp
  | true =>
    have bound := lt_length_of_isHanAt han
    have count := hanCount_eq bound
    rw [markedSuffix_take_succ han] at count
    rw [if_pos ⟨by omega, rfl⟩]
    simp only [true_and]
    split_ifs <;> omega

/-- With `pos = 0` a column moves by `dir` exactly when it is inside a Han
character. -/
theorem adjustColumn_left (line : Row) (c dir : Int) :
    adjustColumn line c 0 dir =
      if insideHan line (clampColumn line c) then clampColumn line c + dir
      else clampColumn line c := by
  simp [adjustColumn_eq, insideHan]

/-- With `pos = 1` a column moves by `dir` exactly when it holds the first byte
of a Han character. -/
theorem adjustColumn_right (line : Row) (c dir : Int) :
    adjustColumn line c 1 dir =
      if startsHan line (clampColumn line c) then clampColumn line c + dir
      else clampColumn line c := by
  simp [adjustColumn_eq, startsHan]

/-! ## The three alignments the callers use -/

/-- The column `(pos, dir) = (0, -1)` selects: the start of the character a
range begins with. -/
def startColumn (line : Row) (c : Int) : Nat :=
  if insideHan line (clampColumn line c) then clampColumn line c - 1
  else clampColumn line c

/-- The column `(pos, dir) = (1, 1)` selects: the last byte of the character a
range ends with. -/
def endColumn (line : Row) (c : Int) : Nat :=
  if startsHan line (clampColumn line c) then clampColumn line c + 1
  else clampColumn line c

/-- The column `(pos, dir) = (0, 1)` selects: the first character boundary from
`c` on. -/
def cursorColumn (line : Row) (c : Int) : Nat :=
  if insideHan line (clampColumn line c) then clampColumn line c + 1
  else clampColumn line c

theorem pos_of_insideHan (inside : insideHan line col = true) : 0 < col := by
  rcases Nat.eq_zero_or_pos col with rfl | positive
  · simp [insideHan] at inside
  · exact positive

theorem lt_length_of_insideHan (inside : insideHan line col = true) : col < line.length := by
  rw [insideHan, Bool.and_eq_true] at inside
  exact lt_length_of_isHanAt inside.1

theorem adjustColumn_start (line : Row) (c : Int) :
    adjustColumn line c 0 (-1) = startColumn line c := by
  rw [adjustColumn_left, startColumn]
  split
  · rename_i inside
    have positive := pos_of_insideHan inside
    omega
  · rfl

theorem adjustColumn_end (line : Row) (c : Int) : adjustColumn line c 1 1 = endColumn line c := by
  rw [adjustColumn_right, endColumn]
  split <;> simp

theorem adjustColumn_cursor (line : Row) (c : Int) :
    adjustColumn line c 0 1 = cursorColumn line c := by
  rw [adjustColumn_left, cursorColumn]
  split <;> simp

theorem startColumn_le (line : Row) (c : Int) : startColumn line c ≤ line.length := by
  have := clampColumn_le line c
  unfold startColumn
  split <;> omega

theorem cursorColumn_le (line : Row) (c : Int) : cursorColumn line c ≤ line.length := by
  unfold cursorColumn
  split
  · rename_i inside
    exact lt_length_of_insideHan inside
  · exact clampColumn_le line c

theorem le_cursorColumn (line : Row) {c : Int} (le : col ≤ clampColumn line c) :
    col ≤ cursorColumn line c := by
  unfold cursorColumn
  split <;> omega

/-- The start of a range is never inside a Han character. -/
theorem insideHan_startColumn (line : Row) (c : Int) :
    insideHan line (startColumn line c) = false := by
  cases inside : insideHan line (clampColumn line c) with
  | false => rw [startColumn, inside, if_neg Bool.false_ne_true, inside]
  | true =>
    obtain ⟨col, clamp_eq⟩ := Nat.exists_eq_add_of_lt (pos_of_insideHan inside)
    rw [Nat.zero_add] at clamp_eq
    have bound := lt_length_of_insideHan inside
    rw [startColumn, inside, if_pos rfl, clamp_eq, Nat.add_sub_cancel]
    rw [insideHan, clamp_eq, Bool.and_eq_true, decide_eq_true_iff] at inside
    -- The byte before the column is Han, so the run before it is one shorter.
    have han : isHanAt line col = true := by
      by_contra notHan
      rw [Bool.not_eq_true] at notHan
      rw [markedSuffix_take_succ_of_not (by omega) notHan] at inside
      omega
    rw [markedSuffix_take_succ han] at inside
    have even : ¬ markedSuffix isHan (line.take col) % 2 = 1 := by omega
    rw [insideHan, decide_eq_false even, Bool.and_false]

/-- Behind a boundary there is none exactly between two Han bytes. -/
theorem insideHan_succ (boundary : insideHan line col = false) :
    insideHan line (col + 1) = (isHanAt line col && isHanAt line (col + 1)) := by
  cases han : isHanAt line col with
  | true =>
    rw [insideHan, han, Bool.true_and, decide_eq_false_iff_not] at boundary
    have odd : markedSuffix isHan (line.take (col + 1)) % 2 = 1 := by
      rw [markedSuffix_take_succ han]
      omega
    rw [insideHan, decide_eq_true odd, Bool.and_true, Bool.true_and]
  | false =>
    rw [Bool.false_and, insideHan]
    by_cases bound : col < line.length
    · rw [markedSuffix_take_succ_of_not bound han]
      exact Bool.and_false _
    · rw [isHanAt, getElem?_eq_none (by omega)]
      rfl

/-- A Han character has two bytes. -/
theorem insideHan_succ_of_inside (inside : insideHan line col = true) :
    insideHan line (col + 1) = false := by
  rw [insideHan, Bool.and_eq_true, decide_eq_true_iff] at inside
  have even : ¬ markedSuffix isHan (line.take (col + 1)) % 2 = 1 := by
    rw [markedSuffix_take_succ inside.1]
    omega
  rw [insideHan, decide_eq_false even, Bool.and_false]

/-- Neither is a column aligned to the right. -/
theorem insideHan_cursorColumn (line : Row) (c : Int) :
    insideHan line (cursorColumn line c) = false := by
  cases inside : insideHan line (clampColumn line c) with
  | false => rw [cursorColumn, inside, if_neg Bool.false_ne_true, inside]
  | true =>
    rw [cursorColumn, inside]
    exact insideHan_succ_of_inside inside

/-- Behind the last byte of a range no character is cut. -/
theorem insideHan_endColumn_succ (line : Row) (c : Int) :
    insideHan line (endColumn line c + 1) = false := by
  -- A byte behind an even run, its own byte included, is not inside.
  have closed {col : Nat} (bound : col < line.length)
      (odd : isHanAt line col = true → markedSuffix isHan (line.take col) % 2 = 1) :
      insideHan line (col + 1) = false := by
    have even : ¬ markedSuffix isHan (line.take (col + 1)) % 2 = 1 := by
      cases han : isHanAt line col with
      | true =>
        have := odd han
        rw [markedSuffix_take_succ han]
        omega
      | false =>
        rw [markedSuffix_take_succ_of_not bound han]
        decide
    rw [insideHan, decide_eq_false even, Bool.and_false]
  have behind {col : Nat} (bound : line.length ≤ col) : insideHan line col = false := by
    rw [insideHan, isHanAt, getElem?_eq_none bound]
    rfl
  cases starts : startsHan line (clampColumn line c) with
  | true =>
    rw [endColumn, starts, if_pos rfl]
    rw [startsHan, Bool.and_eq_true, decide_eq_true_iff] at starts
    by_cases last : clampColumn line c + 1 < line.length
    · apply closed last
      rw [markedSuffix_take_succ starts.1]
      omega
    · exact behind (by omega)
  | false =>
    rw [endColumn, starts, if_neg Bool.false_ne_true]
    by_cases last : clampColumn line c < line.length
    · apply closed last
      intro han
      rw [startsHan, han, Bool.true_and, decide_eq_false_iff_not] at starts
      omega
    · exact behind (by omega)

theorem startColumn_le_endColumn (line : Row) {first last : Int} (ordered : first ≤ last) :
    startColumn line first ≤ endColumn line last := by
  have clamped : clampColumn line first ≤ clampColumn line last := by
    unfold clampColumn
    omega
  unfold startColumn endColumn
  split <;> split <;> omega

end XEditor.Text
