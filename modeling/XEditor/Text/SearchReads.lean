import XEditor.Text.Moves
import XEditor.Text.Search

/-!
# What a search reads

The loops of `Search` once more, with the indices as the source has them and a
record of every byte that is read.  An index may lie outside of its string; the
byte found there is whatever the memory holds.  Where every index lies inside,
these loops compute what `search` does.
-/

namespace XEditor.Text

open List Option

/-- A byte that `Search` reads: from a row of the text or from the pattern. -/
inductive SearchRead where
  | row (i : Nat) (index : Int)
  | pattern (index : Int)
  deriving DecidableEq, Repr

/-- The index lies between zero and the length of the string, where the
terminator is. -/
def SearchRead.Inside (text : Textframe) (pattern : Row) : SearchRead → Prop
  | .row i index => ∃ row, text.data[i]? = some row ∧ 0 ≤ index ∧ index ≤ row.length
  | .pattern index => 0 ≤ index ∧ index ≤ pattern.length

/-- What a string holds at an index. -/
def byteAt (outside : UInt8) (str : Row) (index : Int) : UInt8 :=
  if 0 ≤ index ∧ index ≤ str.length then str[index.toNat]?.getD 0 else outside

/-- The loop that compares a row from column `k` on with the pattern from index
`l` on, for at most `left` columns. -/
def compareLoop (i : Nat) (row pattern : Row) : (left k l : Nat) → List SearchRead × Nat × Nat
  | 0, k, l => ([], k, l)
  | left + 1, k, l =>
    if k < row.length ∧ l < pattern.length then
      if row[k]? = pattern[l]? then
        let rest := compareLoop i row pattern left (k + 1) (l + 1)
        (.row i k :: .pattern l :: rest.1, rest.2)
      else ([.row i k, .pattern l], k + 1, l + 1)
    else ([], k, l)

/-- Take the place found, or else the result of the rest. -/
def thenTry {α : Type} (first rest : List SearchRead × Option α) : List SearchRead × Option α :=
  match first.2 with
  | some place => (first.1, some place)
  | none => (first.1 ++ rest.1, rest.2)

section

variable (memory : SearchRead → UInt8)

/-- The test made for one starting column.  It looks one position back from where
the comparison stopped. -/
def testColumn (i : Nat) (row pattern : Row) (j : Nat) : List SearchRead × Option Nat :=
  let (reads, k, l) := compareLoop i row pattern (row.length - j) j 0
  if l = pattern.length then
    let found : SearchRead := .row i (k - 1)
    let wanted : SearchRead := .pattern (l - 1)
    (reads ++ [found, wanted],
      if byteAt (memory found) row (k - 1) = byteAt (memory wanted) pattern (l - 1) then some k
      else none)
  else (reads, none)

/-- The loop over the starting columns of a row. -/
def testColumns (i : Nat) (row pattern : Row) : (left j : Nat) → List SearchRead × Option Nat
  | 0, _ => ([], none)
  | left + 1, j =>
    thenTry (testColumn memory i row pattern j) (testColumns i row pattern left (j + 1))

/-- One row, from a column on. -/
def testRow (i : Nat) (row pattern : Row) (firstCol : Nat) :
    List SearchRead × Option (Nat × Nat) :=
  (testColumns memory i row pattern (row.length - firstCol) firstCol).map id (·.map (i, ·))

/-- The loop over the rows. -/
def testRows (pattern : Row) :
    List Row → (i firstCol : Nat) → List SearchRead × Option (Nat × Nat)
  | [], _, _ => ([], none)
  | row :: rest, i, firstCol =>
    thenTry (testRow memory i row pattern firstCol) (testRows pattern rest (i + 1) 0)

/-- The rows from the cursor on. -/
def testText (text : Textframe) (pattern : Row) : List SearchRead × Option (Nat × Nat) :=
  testRows memory pattern (text.data.drop text.cursorRow.toNat) text.cursorRow.toNat
    text.cursorCol.toNat

/-- Source `Search` with the bytes it reads, its result and the text it leaves.
The depth of the recursion is bounded by fuel. -/
def searchTraceFuel : Nat → Textframe → Row → List SearchRead × Int × Textframe
  | 0, text, _ => ([], -1, text)
  | fuel + 1, text, pattern =>
    match testText memory text pattern with
    | (reads, some (i, k)) => (reads, 0, { text with cursorRow := i, cursorCol := k })
    | (reads, none) =>
      if text.cursorRow ≠ 0 ∨ text.cursorCol ≠ 0 then
        let again := searchTraceFuel fuel { text with cursorRow := 0, cursorCol := 0 } pattern
        (reads ++ again.1,
          if again.2.1 ≥ 0 then (1, again.2.2)
          else (-1, { again.2.2 with
            cursorRow := text.cursorRow
            cursorCol := text.cursorCol }))
      else (reads, -1, text)

/-- Source `Search` with the bytes it reads. -/
def searchTrace (text : Textframe) (pattern : Row) : List SearchRead × Int × Textframe :=
  searchTraceFuel memory 2 text pattern

end

section

variable {α : Type} {first rest : List SearchRead × Option α} {read : SearchRead}

theorem mem_thenTry_of_mem (isRead : read ∈ first.1) : read ∈ (thenTry first rest).1 := by
  rw [thenTry]
  split
  · exact isRead
  · exact mem_append_left _ isRead

theorem forall_mem_thenTry {holds : SearchRead → Prop} (here : ∀ read ∈ first.1, holds read)
    (later : ∀ read ∈ rest.1, holds read) : ∀ read ∈ (thenTry first rest).1, holds read := by
  rw [thenTry]
  split
  · exact here
  · exact forall_mem_append.mpr ⟨here, later⟩

end

/-- `Search` reads what its first pass reads and, if that finds nothing and has
not started at the origin, what a pass from there reads. -/
theorem searchTrace_eq_passes {memory : SearchRead → UInt8} {text : Textframe} {pattern : Row}
    {reads readsAgain : List SearchRead} {hit again : Option (Nat × Nat)}
    (trace : testText memory text pattern = (reads, hit))
    (traceAgain : testText memory (cursorAt text (0, 0)) pattern = (readsAgain, again)) :
    searchTrace memory text pattern =
      (if hit = none ∧ (text.cursorRow ≠ 0 ∨ text.cursorCol ≠ 0) then reads ++ readsAgain
        else reads, passesResult text hit again) := by
  have second : searchTraceFuel memory 1 { text with cursorRow := 0, cursorCol := 0 } pattern =
      (readsAgain, passesResult (cursorAt text (0, 0)) again none) := by
    change searchTraceFuel memory 1 (cursorAt text (0, 0)) pattern = _
    rw [searchTraceFuel, traceAgain]
    cases again with
    | some place => rfl
    | none => rfl
  rw [searchTrace, searchTraceFuel, trace]
  cases hit with
  | some place => rfl
  | none =>
    by_cases moved : text.cursorRow ≠ 0 ∨ text.cursorCol ≠ 0
    · simp only [if_pos moved, true_and, second]
      cases again with
      | some place => rfl
      | none => rfl
    · rw [cursorAt_origin moved, trace] at traceAgain
      obtain ⟨-, rfl⟩ := traceAgain
      simp only [if_neg moved, true_and, passesResult]

/-! ## A pattern that is not empty -/

variable {rows : List Row}

section

variable {text : Textframe} {pattern row : Row} {i : Nat}

/-- The comparison reads inside both strings, and stops where `matchLoop`
does. -/
theorem compareLoop_spec (pattern : Row) (isRow : text.data[i]? = some row) {left k l : Nat}
    (rest : left = row.length - k) :
    (compareLoop i row pattern left k l).2 = matchLoop (row.drop k) (pattern.drop l) k l ∧
      ∀ read ∈ (compareLoop i row pattern left k l).1, read.Inside text pattern := by
  induction left generalizing k l with
  | zero =>
    rw [drop_eq_nil_of_le (by omega)]
    exact ⟨rfl, by simp [compareLoop]⟩
  | succ left ih =>
    have inRow : k < row.length := by omega
    by_cases inPattern : l < pattern.length
    · rw [compareLoop, if_pos ⟨inRow, inPattern⟩, drop_eq_getElem_cons inRow,
        drop_eq_getElem_cons inPattern, matchLoop]
      have bytes : row[k]? = pattern[l]? ↔ row[k] = pattern[l] := by
        rw [getElem?_eq_getElem inRow, getElem?_eq_getElem inPattern, some.injEq]
      have firstInside : SearchRead.Inside text pattern (.row i k) :=
        ⟨row, isRow, by omega, by omega⟩
      have secondInside : SearchRead.Inside text pattern (.pattern l) := ⟨by omega, by omega⟩
      obtain ⟨stops, inside⟩ := ih (l := l + 1) (show left = row.length - (k + 1) by omega)
      by_cases same : row[k] = pattern[l]
      · rw [if_pos same, if_pos (bytes.mpr same)]
        refine ⟨stops, ?_⟩
        simpa [firstInside, secondInside] using inside
      · rw [if_neg same, if_neg (fun equal => same (bytes.mp equal))]
        simp [firstInside, secondInside]
    · rw [compareLoop, if_neg (fun both => inPattern both.2),
        drop_eq_nil_of_le (Nat.le_of_not_lt inPattern), drop_eq_getElem_cons inRow]
      exact ⟨rfl, by simp⟩

variable (memory : SearchRead → UInt8)

theorem byteAt_of_byteBefore (outside : UInt8) {byte : UInt8} {str : Row} {index : Nat}
    (read : byteBefore? str index = some byte) :
    0 < index ∧ index ≤ str.length ∧ byteAt outside str (index - 1) = byte := by
  cases index with
  | zero => contradiction
  | succ index =>
    obtain ⟨bound, read⟩ := List.getElem?_eq_some_iff.mp read
    refine ⟨Nat.succ_pos _, bound, ?_⟩
    have position : ((index + 1 : Nat) : Int) - 1 = index := by omega
    rw [position, byteAt, if_pos ⟨by omega, by omega⟩, Int.toNat_natCast,
      getElem?_eq_getElem bound, read]
    rfl

variable (nonempty : pattern ≠ [])

include nonempty

/-- So does the test behind it. -/
theorem testColumn_spec (isRow : text.data[i]? = some row) {j : Nat} (inside : j ≤ row.length) :
    hitAt row pattern j = some (testColumn memory i row pattern j).2 ∧
      ∀ read ∈ (testColumn memory i row pattern j).1, read.Inside text pattern := by
  obtain ⟨stops, compared⟩ := compareLoop_spec pattern isRow (l := 0) (Eq.refl (row.length - j))
  obtain ⟨hit, called⟩ := exists_hitAt_eq nonempty inside
  rw [called]
  rw [drop_zero] at stops
  simp only [hitAt, ← stops] at called
  simp only [testColumn]
  generalize compareLoop i row pattern (row.length - j) j 0 = trace at called compared ⊢
  obtain ⟨reads, k, l⟩ := trace
  simp only at called compared ⊢
  split at called
  · rename_i all
    obtain ⟨found, foundRead, called⟩ := bind_eq_some_iff.mp called
    obtain ⟨wanted, wantedRead, called⟩ := bind_eq_some_iff.mp called
    obtain ⟨kPos, kLe, found_eq⟩ := byteAt_of_byteBefore (memory (.row i (k - 1))) foundRead
    obtain ⟨lPos, lLe, wanted_eq⟩ := byteAt_of_byteBefore (memory (.pattern (l - 1))) wantedRead
    rw [if_pos all, found_eq, wanted_eq]
    refine ⟨called.symm, ?_⟩
    intro read isRead
    rcases mem_append.mp isRead with isCompared | isTested
    · exact compared read isCompared
    · rcases mem_pair.mp isTested with rfl | rfl
      · exact ⟨row, isRow, by omega, by omega⟩
      · exact ⟨by omega, by omega⟩
  · rename_i notAll
    rw [if_neg notAll]
    exact ⟨called.symm, compared⟩

theorem testColumns_spec (isRow : text.data[i]? = some row) (left j : Nat)
    (inside : left = 0 ∨ j + left ≤ row.length) :
    searchRow row pattern left j = some (testColumns memory i row pattern left j).2 ∧
      ∀ read ∈ (testColumns memory i row pattern left j).1, read.Inside text pattern := by
  induction left generalizing j with
  | zero => exact ⟨rfl, by simp [testColumns]⟩
  | succ left ih =>
    obtain ⟨called, readsInside⟩ := testColumn_spec memory nonempty isRow (j := j) (by omega)
    obtain ⟨calledRest, restInside⟩ := ih (j + 1) (by omega)
    constructor
    · rw [searchRow, called, testColumns, thenTry]
      cases (testColumn memory i row pattern j).2 with
      | some k => rfl
      | none => exact calledRest
    · exact forall_mem_thenTry readsInside restInside

theorem testRows_spec (firstCol : Nat) (dropped : text.data.drop i = rows) :
    searchRows pattern rows i firstCol = some (testRows memory pattern rows i firstCol).2 ∧
      ∀ read ∈ (testRows memory pattern rows i firstCol).1, read.Inside text pattern := by
  induction rows generalizing i firstCol with
  | nil => exact ⟨rfl, by simp [testRows]⟩
  | cons row rest ih =>
    have isRow : text.data[i]? = some row := by
      rw [← head?_drop, dropped, head?_cons]
    have droppedRest : text.data.drop (i + 1) = rest := by
      rw [← tail_drop, dropped, tail_cons]
    obtain ⟨called, readsInside⟩ := testColumns_spec memory nonempty isRow
      (row.length - firstCol) firstCol (by omega)
    obtain ⟨calledRest, restInside⟩ := ih 0 droppedRest
    constructor
    · rw [searchRows, called, testRows, thenTry, testRow, Prod.map_snd]
      cases (testColumns memory i row pattern (row.length - firstCol) firstCol).2 with
      | some k => rfl
      | none => exact calledRest
    · exact forall_mem_thenTry readsInside restInside

theorem testText_spec (rowNonneg : 0 ≤ text.cursorRow) (colNonneg : 0 ≤ text.cursorCol) :
    searchPass text pattern = some (testText memory text pattern).2 ∧
      ∀ read ∈ (testText memory text pattern).1, read.Inside text pattern := by
  rw [searchPass, if_neg (by omega)]
  exact testRows_spec memory nonempty _ rfl

/-- For a pattern that is not empty every byte is read inside its string, and the
result is that of `search`. -/
theorem searchTrace_spec (valid : CursorValid text) :
    search text pattern = some (searchTrace memory text pattern).2 ∧
      ∀ read ∈ (searchTrace memory text pattern).1, read.Inside text pattern := by
  obtain ⟨line, -, colNonneg, -⟩ := valid.col
  obtain ⟨called, readsInside⟩ := testText_spec memory nonempty valid.row_nonneg colNonneg
  have atOrigin : ∃ reads again, testText memory (cursorAt text (0, 0)) pattern = (reads, again) ∧
      searchPass (cursorAt text (0, 0)) pattern = some again ∧
        ∀ read ∈ reads, read.Inside text pattern := by
    refine ⟨_, _, rfl, ?_⟩
    apply testText_spec memory nonempty
    · exact Int.le_refl 0
    · exact Int.le_refl 0
  obtain ⟨readsAgain, again, traceAgain, calledAgain, insideAgain⟩ := atOrigin
  obtain ⟨reads, hit, trace⟩ : ∃ reads hit, testText memory text pattern = (reads, hit) :=
    ⟨_, _, rfl⟩
  rw [trace] at called readsInside
  rw [search_eq_passesResult called calledAgain, searchTrace_eq_passes trace traceAgain]
  refine ⟨rfl, ?_⟩
  intro read isRead
  split at isRead
  · rcases mem_append.mp isRead with first | second
    · exact readsInside read first
    · exact insideAgain read second
  · exact readsInside read isRead

end

/-! ## The empty pattern -/

section

variable (memory : SearchRead → UInt8)

/-- The test of a column looks before the start of the empty pattern. -/
theorem testColumn_empty (i : Nat) (row : Row) (j : Nat) :
    .pattern (-1) ∈ (testColumn memory i row [] j).1 := by
  have compared : compareLoop i row [] (row.length - j) j 0 = ([], j, 0) := by
    cases row.length - j with
    | zero => rfl
    | succ left =>
      rw [compareLoop, if_neg]
      rintro ⟨-, inPattern⟩
      contradiction
  simp [testColumn, compared]

theorem testRow_empty {row : Row} {firstCol : Nat} (inside : firstCol < row.length) (i : Nat) :
    .pattern (-1) ∈ (testRow memory i row [] firstCol).1 := by
  obtain ⟨left, left_eq⟩ := Nat.exists_eq_add_of_lt (Nat.sub_pos_of_lt inside)
  rw [testRow, left_eq]
  exact mem_thenTry_of_mem (testColumn_empty memory i row firstCol)

/-- So does a pass, unless it tests no column at all. -/
theorem testRows_empty (rows : List Row) (i firstCol : Nat) :
    .pattern (-1) ∈ (testRows memory [] rows i firstCol).1 ∨
      testRows memory [] rows i firstCol = ([], none) := by
  induction rows generalizing i firstCol with
  | nil => exact .inr rfl
  | cons row rows ih =>
    by_cases inside : firstCol < row.length
    · exact .inl (mem_thenTry_of_mem (testRow_empty memory inside i))
    · rw [testRows, testRow, Nat.sub_eq_zero_of_le (Nat.le_of_not_lt inside)]
      exact ih (i + 1) 0

/-- From the origin a column is tested if there is a row that is not empty. -/
theorem testRows_empty_of_mem {row : Row} (isRow : row ∈ rows) (nonempty : row ≠ []) (i : Nat) :
    .pattern (-1) ∈ (testRows memory [] rows i 0).1 := by
  induction rows generalizing i with
  | nil => contradiction
  | cons first rows ih =>
    by_cases inside : 0 < first.length
    · exact mem_thenTry_of_mem (testRow_empty memory inside i)
    obtain rfl : first = [] := length_eq_zero_iff.mp (by omega)
    rcases mem_cons.mp isRow with rfl | later
    · contradiction
    · exact ih later (i + 1)

/-- In a text with a row that is not empty, a search for the empty pattern reads
before its start. -/
theorem searchTrace_empty {text : Textframe} {row : Row} (isRow : row ∈ text.data)
    (nonempty : row ≠ []) : .pattern (-1) ∈ (searchTrace memory text []).1 := by
  obtain ⟨reads, hit, trace⟩ : ∃ reads hit, testText memory text [] = (reads, hit) := ⟨_, _, rfl⟩
  obtain ⟨readsAgain, again, traceAgain⟩ :
      ∃ reads again, testText memory (cursorAt text (0, 0)) [] = (reads, again) := ⟨_, _, rfl⟩
  have second : .pattern (-1) ∈ readsAgain := by
    have tested := testRows_empty_of_mem memory isRow nonempty 0
    change .pattern (-1) ∈ (testText memory (cursorAt text (0, 0)) []).1 at tested
    rwa [traceAgain] at tested
  rw [searchTrace_eq_passes trace traceAgain]
  rcases testRows_empty memory (text.data.drop text.cursorRow.toNat) text.cursorRow.toNat
    text.cursorCol.toNat with first | nothing
  · change .pattern (-1) ∈ (testText memory text []).1 at first
    rw [trace] at first
    split
    · exact mem_append_left _ first
    · exact first
  · obtain ⟨rfl, rfl⟩ := Prod.mk.inj (trace.symm.trans nothing)
    by_cases moved : text.cursorRow ≠ 0 ∨ text.cursorCol ≠ 0
    · rw [if_pos ⟨rfl, moved⟩]
      exact second
    · rw [cursorAt_origin moved, trace] at traceAgain
      cases traceAgain
      contradiction

end

/-- Nothing is read from empty rows. -/
theorem testRows_of_empty (memory : SearchRead → UInt8) (pattern : Row)
    (empty : ∀ row ∈ rows, row = []) (i firstCol : Nat) :
    testRows memory pattern rows i firstCol = ([], none) := by
  induction rows generalizing i firstCol with
  | nil => rfl
  | cons row rows ih =>
    obtain rfl := empty row mem_cons_self
    rw [testRows, testRow, length_nil, Nat.zero_sub]
    exact ih (fun other isRow => empty other (mem_cons_of_mem [] isRow)) (i + 1) 0

/-- Every byte that `Search` reads is inside its string exactly when the pattern
is not empty or there is nothing to search in. -/
theorem search_reads_inside_iff (memory : SearchRead → UInt8) {text : Textframe}
    (valid : CursorValid text) (pattern : Row) :
    (∀ read ∈ (searchTrace memory text pattern).1, read.Inside text pattern) ↔
      pattern ≠ [] ∨ ∀ row ∈ text.data, row = [] := by
  constructor
  · intro inside
    by_cases empty : pattern = []
    · right
      intro row isRow
      by_contra nonempty
      subst empty
      have before := (inside _ (searchTrace_empty memory isRow nonempty)).1
      exact absurd before (by decide)
    · exact .inl empty
  · rintro (nonempty | allEmpty)
    · exact (searchTrace_spec memory nonempty valid).2
    have nothing (r c : Nat) :
        testRows memory pattern (text.data.drop r) r c = ([], none) := by
      apply testRows_of_empty
      intro row isRow
      exact allEmpty row (mem_of_mem_drop isRow)
    intro read isRead
    rw [searchTrace_eq_passes (nothing _ _) (nothing 0 0)] at isRead
    split at isRead <;> contradiction

/-- A text of one letter, with the cursor before it. -/
def oneLetter : Textframe :=
  lineEditSetStr [97]

theorem search_reads_letter :
    .row 0 0 ∈ (searchTrace (fun _ => 0) oneLetter [98]).1 ∧
      ∀ read ∈ (searchTrace (fun _ => 0) oneLetter [98]).1, read.Inside oneLetter [98] := by
  have located : Located oneLetter [] [] [97] [] := ⟨rfl, rfl, rfl⟩
  refine ⟨by decide, ?_⟩
  exact (search_reads_inside_iff _ located.cursorValid [98]).mpr (.inl (by decide))

/-- `ENTER` in an empty search box: the byte before the row and the byte before
the pattern are read. -/
theorem search_reads_before_start :
    (searchTrace (fun _ => 0) oneLetter []).1 = [.row 0 (-1), .pattern (-1)] ∧
      ¬ SearchRead.Inside oneLetter [] (.row 0 (-1)) ∧
        ¬ SearchRead.Inside oneLetter [] (.pattern (-1)) := by
  refine ⟨by decide, ?_, ?_⟩
  · rintro ⟨row, -, low, -⟩
    exact absurd low (by decide)
  · rintro ⟨low, -⟩
    exact absurd low (by decide)

end XEditor.Text
