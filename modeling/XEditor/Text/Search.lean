import XEditor.Text.Frame
import Mathlib.Data.Prod.Lex
import Mathlib.Order.Bounds.Basic

/-!
# Searching for a pattern

`Search` looks for a pattern from the cursor to the end of the text and, when
that fails, once more from the start of the text.  The source calls itself for
the second pass; the recursion carries fuel here, and two units suffice because
the second pass starts at the origin.

Reading before the start of a row or of the pattern is undefined in the source
and gives `none`.
-/

namespace XEditor.Text

open List Option

/-- The inner `while` loop: compare the row from column `k` on with the pattern
from index `l` on.  Both indices have moved past the last pair compared. -/
def matchLoop : (row pattern : Row) → (k l : Nat) → Nat × Nat
  | byte :: row, wanted :: pattern, k, l =>
    if byte = wanted then matchLoop row pattern (k + 1) (l + 1) else (k + 1, l + 1)
  | [], _, k, l => (k, l)
  | _ :: _, [], k, l => (k, l)

/-- The byte before an index of a C string, read as the source reads it. -/
def byteBefore? (row : Row) (index : Nat) : Option UInt8 :=
  match index with
  | 0 => none
  | index + 1 => row[index]?

/-- The test made for one starting column: the column behind the hit, or no
hit. -/
def hitAt (row pattern : Row) (j : Nat) : Option (Option Nat) :=
  let (k, l) := matchLoop (row.drop j) pattern j 0
  if l = pattern.length then do
    let found ← byteBefore? row k
    let wanted ← byteBefore? pattern l
    some (if found = wanted then some k else none)
  else some none

/-- The loop over the starting columns of one row, with the number of columns
left to try. -/
def searchRow (row pattern : Row) : Nat → (j : Nat) → Option (Option Nat)
  | 0, _ => some none
  | left + 1, j => do
    match ← hitAt row pattern j with
    | some k => some (some k)
    | none => searchRow row pattern left (j + 1)

/-- The loop over the rows.  Only the first row starts at a column other than
zero. -/
def searchRows (pattern : Row) : List Row → (i firstCol : Nat) → Option (Option (Nat × Nat))
  | [], _, _ => some none
  | row :: rest, i, firstCol => do
    match ← searchRow row pattern (row.length - firstCol) firstCol with
    | some k => some (some (i, k))
    | none => searchRows pattern rest (i + 1) 0

/-- One pass from the cursor to the end of the text. -/
def searchPass (text : Textframe) (pattern : Row) : Option (Option (Nat × Nat)) :=
  if text.cursorRow < 0 ∨ text.cursorCol < 0 then none
  else
    searchRows pattern (text.data.drop text.cursorRow.toNat) text.cursorRow.toNat
      text.cursorCol.toNat

/-- Source `Search`, with the depth of the recursion bounded by fuel. -/
def searchFuel : Nat → Textframe → Row → Option (Int × Textframe)
  | 0, _, _ => none
  | fuel + 1, text, pattern => do
    match ← searchPass text pattern with
    | some (i, k) => some (0, { text with cursorRow := i, cursorCol := k })
    | none =>
      if text.cursorRow ≠ 0 ∨ text.cursorCol ≠ 0 then do
        let (result, found) ← searchFuel fuel { text with cursorRow := 0, cursorCol := 0 } pattern
        if result ≥ 0 then some (1, found)
        else
          some (-1, { found with cursorRow := text.cursorRow, cursorCol := text.cursorCol })
      else some (-1, text)

/-- Source `Search`. -/
def search (text : Textframe) (pattern : Row) : Option (Int × Textframe) :=
  searchFuel 2 text pattern

/-! ## Where a search ends -/

/-- The comparison loop moves both indices by the same number of bytes, and past
the end of neither string. -/
theorem matchLoop_eq (row pattern : Row) (k l : Nat) :
    ∃ n, matchLoop row pattern k l = (k + n, l + n) ∧ n ≤ row.length ∧ n ≤ pattern.length := by
  induction row generalizing pattern k l with
  | nil => exact ⟨0, rfl, Nat.zero_le _, Nat.zero_le _⟩
  | cons byte row ih =>
    cases pattern with
    | nil => exact ⟨0, rfl, Nat.zero_le _, Nat.zero_le _⟩
    | cons wanted pattern =>
      rw [matchLoop]
      split
      · obtain ⟨n, loop, row_le, pattern_le⟩ := ih pattern (k + 1) (l + 1)
        refine ⟨n + 1, ?_, Nat.succ_le_succ row_le, Nat.succ_le_succ pattern_le⟩
        rw [loop, Prod.mk.injEq]
        omega
      · exact ⟨1, rfl, by simp, by simp⟩

variable {row : Row} {j left r c i : Nat}

theorem byteBefore?_isSome {index : Nat} (positive : 0 < index) (bound : index ≤ row.length) :
    ∃ byte, byteBefore? row index = some byte := by
  obtain ⟨before, rfl⟩ := Nat.exists_eq_succ_of_ne_zero (Nat.ne_of_gt positive)
  exact ⟨_, getElem?_eq_getElem bound⟩

/-- Comparing a pattern that is not empty reads inside both strings. -/
theorem exists_hitAt_eq {pattern : Row} (nonempty : pattern ≠ []) (inside : j ≤ row.length) :
    ∃ hit, hitAt row pattern j = some hit := by
  obtain ⟨n, loop, row_le, pattern_le⟩ := matchLoop_eq (row.drop j) pattern j 0
  have positive := length_pos_iff.mpr nonempty
  rw [length_drop] at row_le
  simp only [hitAt, loop, Nat.zero_add]
  split
  · obtain ⟨found, foundRead⟩ : ∃ byte, byteBefore? row (j + n) = some byte :=
      byteBefore?_isSome (by omega) (by omega)
    obtain ⟨wanted, wantedRead⟩ : ∃ byte, byteBefore? pattern n = some byte :=
      byteBefore?_isSome (by omega) pattern_le
    simp only [foundRead, wantedRead, bind_eq_bind, bind_some]
    exact ⟨_, rfl⟩
  · exact ⟨none, rfl⟩

variable {text : Textframe}

section

variable {pattern : Row}

/-- The text with the cursor behind a hit. -/
def cursorAt (text : Textframe) (place : Nat × Nat) : Textframe :=
  { text with cursorRow := place.1, cursorCol := place.2 }

theorem cursorAt_origin (still : ¬ (text.cursorRow ≠ 0 ∨ text.cursorCol ≠ 0)) :
    cursorAt text (0, 0) = text := by
  rw [not_or, not_not, not_not] at still
  rw [Textframe.mk.injEq]
  exact ⟨rfl, still.1.symm, still.2.symm, rfl⟩

/-- What `Search` makes of its two passes. -/
def passesResult (text : Textframe) (hit again : Option (Nat × Nat)) : Int × Textframe :=
  match hit, again with
  | some place, _ => (0, cursorAt text place)
  | none, some place => (1, cursorAt text place)
  | none, none => (-1, text)

/-- `Search` returns what its passes from the cursor and from the start of the
text give; the second call does not search again. -/
theorem search_eq_passesResult {hit again : Option (Nat × Nat)}
    (called : searchPass text pattern = some hit)
    (calledAgain : searchPass (cursorAt text (0, 0)) pattern = some again) :
    search text pattern = some (passesResult text hit again) := by
  rw [search, searchFuel, called]
  cases hit with
  | some place => rfl
  | none =>
    by_cases moved : text.cursorRow ≠ 0 ∨ text.cursorCol ≠ 0
    · simp only [bind_eq_bind, bind_some, if_pos moved, searchFuel]
      change ((searchPass (cursorAt text (0, 0)) pattern).bind _).bind _ = _
      rw [calledAgain]
      cases again with
      | some place => rfl
      | none => rfl
    · rw [cursorAt_origin moved, called] at calledAgain
      cases calledAgain
      simp only [bind_eq_bind, bind_some, if_neg moved, passesResult]

end

/-! ## What a search finds -/

/-- A pattern that the row starts with is compared to its end. -/
theorem matchLoop_of_prefix {pattern : Row} (starts : pattern <+: row) (k l : Nat) :
    matchLoop row pattern k l = (k + pattern.length, l + pattern.length) := by
  induction pattern generalizing row k l with
  | nil => cases row <;> rfl
  | cons wanted pattern ih =>
    obtain ⟨rest, rfl⟩ := starts
    rw [cons_append, matchLoop, if_pos rfl, ih (prefix_append pattern rest)]
    simp only [length_cons, Prod.mk.injEq]
    omega

/-- Otherwise the comparison stops inside the pattern, or just behind it with
two bytes that differ. -/
theorem matchLoop_of_not_prefix {pattern : Row} (differs : ¬ pattern <+: row) (k l : Nat) :
    ∃ n, matchLoop row pattern k l = (k + n, l + n) ∧
      (n = pattern.length → row[n - 1]? ≠ pattern[n - 1]?) := by
  induction pattern generalizing row k l with
  | nil => exact absurd nil_prefix differs
  | cons wanted pattern ih =>
    cases row with
    | nil => exact ⟨0, rfl, by simp⟩
    | cons byte row =>
      by_cases same : byte = wanted
      · have restDiffers : ¬ pattern <+: row := by
          intro starts
          exact differs (cons_prefix_cons.mpr ⟨same.symm, starts⟩)
        obtain ⟨n, loop, last⟩ := ih restDiffers (k + 1) (l + 1)
        refine ⟨n + 1, ?_, ?_⟩
        · rw [matchLoop, if_pos same, loop, Prod.mk.injEq]
          omega
        intro all
        rw [length_cons, Nat.add_right_cancel_iff] at all
        have different := last all
        cases n with
        | zero =>
          obtain rfl := length_eq_zero_iff.mp all.symm
          exact absurd nil_prefix restDiffers
        | succ n => simpa using different
      · refine ⟨1, by rw [matchLoop, if_neg same], ?_⟩
        intro _
        simpa using same

/-- A column is a hit exactly when the pattern stands there. -/
theorem hitAt_eq {pattern : Row} (nonempty : pattern ≠ []) (inside : j ≤ row.length) :
    hitAt row pattern j =
      some (if pattern <+: row.drop j then some (j + pattern.length) else none) := by
  have positive := length_pos_iff.mpr nonempty
  obtain ⟨last, last_eq⟩ := Nat.exists_eq_succ_of_ne_zero (Nat.ne_of_gt positive)
  have wantedRead : byteBefore? pattern pattern.length = pattern[last]? := by
    rw [last_eq, byteBefore?]
  by_cases starts : pattern <+: row.drop j
  · have foundRead : byteBefore? row (j + pattern.length) = pattern[last]? := by
      rw [last_eq, Nat.add_succ, byteBefore?, ← getElem?_drop,
        prefix_iff_getElem?.mp starts last (by omega), getElem?_eq_getElem]
    have read : pattern[last]? = some (pattern.get ⟨last, by omega⟩) :=
      getElem?_eq_getElem (by omega)
    simp only [hitAt, matchLoop_of_prefix starts, Nat.zero_add, if_true, foundRead, wantedRead,
      read, bind_eq_bind, bind_some, if_pos starts]
  · obtain ⟨hit, called⟩ := exists_hitAt_eq nonempty inside
    obtain ⟨n, loop, different⟩ := matchLoop_of_not_prefix starts j 0
    rw [if_neg starts]
    simp only [hitAt, loop, Nat.zero_add] at called ⊢
    split at called
    · rename_i all
      have differ : byteBefore? row (j + n) ≠ byteBefore? pattern n := by
        have := different all
        rw [getElem?_drop] at this
        rw [all, wantedRead, last_eq]
        rw [all, last_eq] at this
        exact this
      rw [if_pos all]
      simp only [bind_eq_bind, bind_eq_some_iff] at called
      obtain ⟨found, foundRead, wanted, wantedRead, -⟩ := called
      rw [foundRead, wantedRead, ne_eq, some.injEq] at differ
      simp only [foundRead, wantedRead, bind_eq_bind, bind_some, if_neg differ]
    · rename_i notAll
      rw [if_neg notAll]

section

/-- The places, row and column, where the pattern stands within a row. -/
def occurrences (lines : List Row) (pattern : Row) : Set (ℕ ×ₗ ℕ) :=
  {place | ∃ row, lines[(ofLex place).1]? = some row ∧ pattern <+: row.drop (ofLex place).2}

variable {lines : List Row} {pattern : Row}

theorem mem_occurrences_inter_Ici :
    toLex (i, j) ∈ occurrences lines pattern ∩ Set.Ici (toLex (r, c)) ↔
      (∃ line, lines[i]? = some line ∧ pattern <+: line.drop j) ∧ (r < i ∨ r = i ∧ c ≤ j) := by
  rw [Set.mem_inter_iff, Set.mem_Ici, Prod.Lex.le_iff]
  rfl

theorem Ici_origin : Set.Ici (toLex ((0, 0) : ℕ × ℕ)) = Set.univ := by
  ext ⟨r, c⟩
  refine iff_of_true (Prod.Lex.le_iff.mpr ?_) trivial
  change 0 < r ∨ 0 = r ∧ 0 ≤ c
  omega

/-- A nonempty pattern does not stand behind the end of a row. -/
theorem lt_length_of_prefix_drop (nonempty : pattern ≠ []) (starts : pattern <+: row.drop j) :
    j < row.length := by
  have short := starts.length_le
  have positive := length_pos_iff.mpr nonempty
  rw [length_drop] at short
  omega

/-- The loop over the columns of a row stops at the first hit. -/
theorem searchRow_first (nonempty : pattern ≠ []) (row : Row) (rest : left = row.length - j) :
    (searchRow row pattern left j = some none ∧ ∀ c ≥ j, ¬ pattern <+: row.drop c) ∨
      ∃ c ≥ j, searchRow row pattern left j = some (some (c + pattern.length)) ∧
        pattern <+: row.drop c ∧ ∀ other ≥ j, pattern <+: row.drop other → c ≤ other := by
  induction left generalizing j with
  | zero =>
    refine .inl ⟨rfl, ?_⟩
    intro c behind starts
    have := lt_length_of_prefix_drop nonempty starts
    omega
  | succ left ih =>
    rw [searchRow, hitAt_eq nonempty (by omega)]
    by_cases starts : pattern <+: row.drop j
    · refine .inr ⟨j, Nat.le_refl _, ?_, starts, fun other behind _ => behind⟩
      simp only [if_pos starts, bind_eq_bind, bind_some]
    simp only [if_neg starts, bind_eq_bind, bind_some]
    have later {c : Nat} (behind : c ≥ j) (there : pattern <+: row.drop c) : c ≥ j + 1 := by
      rcases Nat.eq_or_lt_of_le behind with rfl | behind
      · exact absurd there starts
      · exact behind
    rcases ih (show left = row.length - (j + 1) by omega) with
      ⟨called, absent⟩ | ⟨c, behind, called, there, first⟩
    · exact .inl ⟨called, fun c behind there => absent c (later behind there) there⟩
    · refine .inr ⟨c, by omega, called, there, ?_⟩
      exact fun other behind there => first other (later behind there) there

/-- What a pass reports: no place among those it looks through, or the end of
the first one. -/
def Reports (places : Set (ℕ ×ₗ ℕ)) (pattern : Row) : Option (Nat × Nat) → Prop
  | none => places = ∅
  | some (i, k) => ∃ j, k = j + pattern.length ∧ IsLeast places (toLex (i, j))

theorem searchRows_reports (nonempty : pattern ≠ []) {rows : List Row} (firstCol : Nat)
    (dropped : lines.drop i = rows) :
    ∃ hit, searchRows pattern rows i firstCol = some hit ∧
      Reports (occurrences lines pattern ∩ Set.Ici (toLex (i, firstCol))) pattern hit := by
  induction rows generalizing i firstCol with
  | nil =>
    refine ⟨none, rfl, Set.eq_empty_iff_forall_notMem.mpr ?_⟩
    rintro ⟨r, c⟩ mem
    obtain ⟨⟨line, read, -⟩, behind⟩ := mem_occurrences_inter_Ici.mp mem
    have inside := (List.getElem?_eq_some_iff.mp read).1
    have := drop_eq_nil_iff.mp dropped
    omega
  | cons row rest ih =>
    have read : lines[i]? = some row := by
      rw [← head?_drop, dropped, head?_cons]
    have droppedRest : lines.drop (i + 1) = rest := by
      rw [← tail_drop, dropped, tail_cons]
    rw [searchRows]
    rcases searchRow_first nonempty row (Eq.refl (row.length - firstCol)) with
      ⟨called, absent⟩ | ⟨c, behind, called, there, first⟩
    · obtain ⟨hit, calledRest, reports⟩ := ih 0 droppedRest
      -- Nothing stands in this row, so the two starts have the same places behind them.
      have same : occurrences lines pattern ∩ Set.Ici (toLex (i, firstCol)) =
          occurrences lines pattern ∩ Set.Ici (toLex (i + 1, 0)) := by
        ext ⟨r, c⟩
        refine mem_occurrences_inter_Ici.trans (Iff.trans ?_ mem_occurrences_inter_Ici.symm)
        refine and_congr_right fun ⟨line, readLine, there⟩ => ?_
        have notHere : i = r → ¬ firstCol ≤ c := by
          rintro rfl inside
          rw [read] at readLine
          cases readLine
          exact absent c inside there
        omega
      refine ⟨hit, ?_, same ▸ reports⟩
      rw [called]
      exact calledRest
    · refine ⟨some (i, c + pattern.length), by rw [called]; rfl, c, rfl, ?_, ?_⟩
      · exact mem_occurrences_inter_Ici.mpr ⟨⟨row, read, there⟩, .inr ⟨rfl, behind⟩⟩
      rintro ⟨r, d⟩ mem
      obtain ⟨⟨line, readLine, thereToo⟩, later⟩ := mem_occurrences_inter_Ici.mp mem
      refine Prod.Lex.le_iff.mpr ?_
      rcases later with below | ⟨rfl, behindToo⟩
      · exact .inl below
      · rw [read] at readLine
        cases readLine
        exact .inr ⟨rfl, first d behindToo thereToo⟩

/-- So does a pass over the text, of the places from the cursor on. -/
theorem searchPass_reports (nonempty : pattern ≠ []) (row_eq : text.cursorRow = r)
    (col_eq : text.cursorCol = c) :
    ∃ hit, searchPass text pattern = some hit ∧
      Reports (occurrences text.data pattern ∩ Set.Ici (toLex (r, c))) pattern hit := by
  obtain ⟨hit, called, reports⟩ := searchRows_reports nonempty c (Eq.refl (text.data.drop r))
  refine ⟨hit, ?_, reports⟩
  rw [searchPass, row_eq, col_eq]
  exact called

end

/-- The place a search goes to: the first one at or behind the cursor where the
pattern stands, or if there is none, the first one of the text. -/
def NextPlace (text : Textframe) (pattern : Row) (place : ℕ ×ₗ ℕ) : Prop :=
  let ahead := occurrences text.data pattern ∩
    Set.Ici (toLex (text.cursorRow.toNat, text.cursorCol.toNat))
  IsLeast ahead place ∨ ahead = ∅ ∧ IsLeast (occurrences text.data pattern) place

section

variable {pattern : Row} (nonempty : pattern ≠ []) (row_eq : text.cursorRow = r)
  (col_eq : text.cursorCol = c)

include nonempty row_eq col_eq

theorem search_cases :
    (∃ i j, IsLeast (occurrences text.data pattern ∩ Set.Ici (toLex (r, c))) (toLex (i, j)) ∧
      search text pattern = some (0, cursorAt text (i, j + pattern.length))) ∨
    (occurrences text.data pattern ∩ Set.Ici (toLex (r, c)) = ∅ ∧
      ∃ i j, IsLeast (occurrences text.data pattern) (toLex (i, j)) ∧
        search text pattern = some (1, cursorAt text (i, j + pattern.length))) ∨
    (occurrences text.data pattern = ∅ ∧ search text pattern = some (-1, text)) := by
  obtain ⟨hit, called, reports⟩ := searchPass_reports nonempty row_eq col_eq
  have zero : (0 : Int) = ((0 : Nat) : Int) := rfl
  have atOrigin : ∃ again, searchPass (cursorAt text (0, 0)) pattern = some again ∧
      Reports (occurrences text.data pattern ∩ Set.Ici (toLex (0, 0))) pattern again :=
    searchPass_reports nonempty zero zero
  obtain ⟨again, calledAgain, reportsAgain⟩ := atOrigin
  rw [Ici_origin, Set.inter_univ] at reportsAgain
  have result := search_eq_passesResult called calledAgain
  cases hit with
  | some place =>
    obtain ⟨j, behind, least⟩ := reports
    exact .inl ⟨place.1, j, least, behind ▸ result⟩
  | none =>
    cases again with
    | some place =>
      obtain ⟨j, behind, least⟩ := reportsAgain
      exact .inr (.inl ⟨reports, place.1, j, least, behind ▸ result⟩)
    | none => exact .inr (.inr ⟨reportsAgain, result⟩)

/-- `Search` leaves the text alone, or moves the cursor behind the pattern at the
next place. -/
theorem search_spec :
    search text pattern = some (-1, text) ∨
    ∃ i j row result, NextPlace text pattern (toLex (i, j)) ∧ 0 ≤ result ∧
      text.data[i]? = some row ∧ j + pattern.length ≤ row.length ∧
      search text pattern = some (result, cursorAt text (i, j + pattern.length)) := by
  have ends : ∀ {i j}, toLex (i, j) ∈ occurrences text.data pattern →
      ∃ row, text.data[i]? = some row ∧ j + pattern.length ≤ row.length := by
    rintro i j ⟨row, read, starts⟩
    have short := starts.length_le
    have inside := lt_length_of_prefix_drop nonempty starts
    rw [length_drop] at short
    change j < row.length at inside
    change pattern.length ≤ row.length - j at short
    exact ⟨row, read, by omega⟩
  rcases search_cases nonempty row_eq col_eq with
    ⟨i, j, least, called⟩ | ⟨none, i, j, least, called⟩ | ⟨-, called⟩
  · obtain ⟨row, read, fits⟩ := ends least.1.1
    refine .inr ⟨i, j, row, 0, .inl ?_, by decide, read, fits, called⟩
    rw [row_eq, col_eq]
    exact least
  · obtain ⟨row, read, fits⟩ := ends least.1
    refine .inr ⟨i, j, row, 1, .inr ⟨?_, least⟩, by decide, read, fits, called⟩
    rw [row_eq, col_eq]
    exact none
  · exact .inl called

end

/-- `Search` puts the cursor behind the first place at or behind it where the
pattern stands; if there is none, behind the first place of the text; if the
pattern is nowhere, it leaves the cursor alone. -/
theorem search_finds_next {text : Textframe} {pattern : Row} (nonempty : pattern ≠ [])
    {r c : Nat} (row_eq : text.cursorRow = r) (col_eq : text.cursorCol = c) :
    (∃ i j, IsLeast (occurrences text.data pattern ∩ Set.Ici (toLex (r, c))) (toLex (i, j)) ∧
      search text pattern = some (0, cursorAt text (i, j + pattern.length))) ∨
    (occurrences text.data pattern ∩ Set.Ici (toLex (r, c)) = ∅ ∧
      ∃ i j, IsLeast (occurrences text.data pattern) (toLex (i, j)) ∧
        search text pattern = some (1, cursorAt text (i, j + pattern.length))) ∨
    (occurrences text.data pattern = ∅ ∧ search text pattern = some (-1, text)) :=
  search_cases nonempty row_eq col_eq

/-- A row with two places for the letter `a`, and the cursor between them. -/
def twoPlaces : Textframe where
  data := [[97, 97]]
  cursorRow := 0
  cursorCol := 1
  maxrowCapacity := 1

theorem search_twoPlaces :
    ∃ i j, IsLeast (occurrences twoPlaces.data [97] ∩ Set.Ici (toLex (0, 1))) (toLex (i, j)) ∧
      search twoPlaces [97] = some (0, cursorAt twoPlaces (i, j + 1)) := by
  have there : toLex (0, 1) ∈ occurrences twoPlaces.data [97] ∩ Set.Ici (toLex (0, 1)) :=
    mem_occurrences_inter_Ici.mpr ⟨⟨[97, 97], rfl, by decide⟩, by decide⟩
  rcases @search_finds_next twoPlaces [97] (by decide) 0 1 rfl rfl with
    found | ⟨none, -⟩ | ⟨none, -⟩
  · exact found
  · exact absurd there (none ▸ Set.notMem_empty _)
  · exact absurd there.1 (none ▸ Set.notMem_empty _)

end XEditor.Text
