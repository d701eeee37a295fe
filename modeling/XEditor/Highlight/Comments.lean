import Mathlib.Data.Nat.Find
import XEditor.Highlight.Table

/-!
# The colors of a row

`draw_TextEdit` runs the highlighting ahead of the column it draws, up to the next
word that is recognized, and looks back from there.  So the color of a column
depends on the first word recognized from it on.

A comment is recognized only if nothing is half matched where it starts.
-/

namespace XEditor.Highlight

open List Option Text

/-! ## The source -/

/-- The bytes behind which a word does not end. -/
def continuesWord (c : UInt8) : Bool :=
  decide (97 ≤ c ∧ c ≤ 122 ∨ 48 ≤ c ∧ c ≤ 57 ∨ c = 95)

/-- Source `highlight_update`: the new status, and the color with the count if the
return value is 0. -/
def highlightUpdate (table : HighlightTable) (c : UInt8) (u : Nat) : Nat × Option (Nat × Nat) :=
  let nextu := table.ch u c
  (nextu,
    if table.colors u ≠ 0 ∧ nextu = 0 ∧ continuesWord c = false then
      some (table.colors u, table.deep u)
    else if table.colors u ≠ 0 ∧ nextu = u then some (table.colors u, 1)
    else if table.colors nextu ≠ 0 ∧ table.includeAlls nextu then
      some (table.colors nextu, table.deep nextu - 1)
    else none)

/-- The parameters of the highlighting in `draw_TextEdit`. -/
structure Marker where
  status : Nat
  count : Nat
  highlightC : Nat
  hc : Nat

/-- The byte of a row at an index, which is the terminator at its end. -/
def byteAt (row : Row) (i : Nat) : UInt8 :=
  row.getD i 0

/-- The inner loop of `draw_TextEdit`, for a number of bytes that are left. -/
def lookAhead (table : HighlightTable) (row : Row) : Nat → Marker → Marker
  | 0, marker => marker
  | left + 1, marker =>
    let (status, found) := highlightUpdate table (byteAt row marker.hc) marker.status
    match found with
    | some (color, count) => ⟨status, count, color, marker.hc + 1⟩
    | none =>
      if marker.hc + 1 = row.length + 1 then
        lookAhead table row left ⟨status, 0, 0, marker.hc + 1⟩
      else
        lookAhead table row left ⟨status, marker.count, marker.highlightC, marker.hc + 1⟩

/-- What the marker is when a column is drawn. -/
def advance (table : HighlightTable) (highlightOn : Bool) (row : Row) (col : Nat)
    (marker : Marker) : Marker :=
  if marker.hc ≤ col ∧ highlightOn then
    lookAhead table row (row.length + 1 - marker.hc) marker
  else marker

def curC (marker : Marker) (col : Nat) : Nat :=
  if col + marker.count + 1 ≥ marker.hc then marker.highlightC else 0

/-- The loop of `draw_TextEdit` over the columns of a row: the columns at which a
character is drawn, with their colors. -/
def columnColors (table : HighlightTable) (highlightOn : Bool) (row : Row) :
    (left col : Nat) → Marker → List (Nat × Nat)
  | 0, _, _ => []
  | left + 1, col, marker =>
    if col < row.length then
      let marker := advance table highlightOn row col marker
      (col, curC marker col) ::
        columnColors table highlightOn row left
          (if isHan (byteAt row col) && isHan (byteAt row (col + 1)) then col + 2 else col + 1)
          marker
    else []

/-- The columns of a row that are drawn, with their colors. -/
def rowColors (table : HighlightTable) (highlightOn : Bool) (row : Row) : List (Nat × Nat) :=
  columnColors table highlightOn row row.length 0 ⟨0, 0, 0, 0⟩

/-! ## Recognized words -/

/-- What is reported at a byte when a word is matched. -/
def mark (word : Row) (c : UInt8) : Option (Nat × Nat) :=
  if colorOf word ≠ 0 ∧ follow word c = [] ∧ continuesWord c = false then
    some (colorOf word, word.length)
  else if colorOf word ≠ 0 ∧ follow word c = word then some (colorOf word, 1)
  else if colorOf (follow word c) ≠ 0 ∧ follow word c ∈ special then
    some (colorOf (follow word c), (follow word c).length - 1)
  else none

/-- What is matched before a byte of a row. -/
def matchedAt (row : Row) (k : Nat) : Row :=
  pending ((row ++ [0]).take k)

/-- What is reported at a byte of a row. -/
def event (row : Row) (k : Nat) : Option (Nat × Nat) :=
  mark (matchedAt row k) (byteAt row k)

theorem matchedAt_succ {row : Row} {k : Nat} (inside : k ≤ row.length) :
    matchedAt row (k + 1) = follow (matchedAt row k) (byteAt row k) := by
  have bound : k < (row ++ [0]).length := by
    rw [length_append, length_singleton]
    omega
  have byte : (row ++ [0])[k] = byteAt row k := by
    rw [byteAt, getD_eq_getElem?_getD, getElem_append]
    split
    · rename_i inRow
      rw [getElem?_eq_getElem inRow]
      rfl
    · rw [getElem?_eq_none (by omega)]
      simp
  rw [matchedAt, take_succ_eq_append_getElem bound, pending, foldl_append, byte]
  rfl

variable {word : Row}

/-- In a table that reads words, `highlight_update` reports what the words say. -/
theorem Reads.highlightUpdate {table : HighlightTable} {node : Row → Nat} (reads : Reads table node)
    (isIn : IsBeginning word) (c : UInt8) :
    highlightUpdate table c (node word) = (node (follow word c), mark word c) := by
  have next := isBeginning_follow isIn c
  have empty : node (follow word c) = 0 ↔ follow word c = [] := by
    rw [← reads.root]
    exact ⟨reads.inj _ _ next (Or.inl rfl), fun same => by rw [same]⟩
  have stays : node (follow word c) = node word ↔ follow word c = word :=
    ⟨reads.inj _ _ next isIn, fun same => by rw [same]⟩
  rw [Highlight.highlightUpdate, mark]
  simp only [reads.ch word isIn, reads.colors word isIn, reads.deep word isIn,
    reads.colors _ next, reads.deep _ next, reads.includeAlls _ next, empty, stays,
    decide_eq_true_eq]

/-! ## The loop -/

/-- The marker at a column: nothing is reported before it from the column on, and
it holds what is reported there, or nothing at the end of the row. -/
structure Ahead (row : Row) (node : Row → Nat) (col : Nat) (marker : Marker) : Prop where
  status : marker.status = node (matchedAt row marker.hc)
  here : col ≤ marker.hc
  inside : marker.hc ≤ row.length + 1
  silent : ∀ k, col ≤ k → k + 1 < marker.hc → event row k = none
  holds : col < marker.hc → event row (marker.hc - 1) = some (marker.highlightC, marker.count) ∨
    event row (marker.hc - 1) = none ∧ marker.highlightC = 0 ∧ marker.hc = row.length + 1

variable {left color : Nat}

section

variable {table : HighlightTable} {node : Row → Nat} {row : Row} {col : Nat} {marker : Marker}

/-- Looking ahead finds the next report. -/
theorem lookAhead_ahead (reads : Reads table node)
    (status : marker.status = node (matchedAt row marker.hc)) (here : col ≤ marker.hc)
    (enough : marker.hc + left = row.length + 1)
    (silent : ∀ k, col ≤ k → k < marker.hc → event row k = none)
    (ended : left = 0 → marker.highlightC = 0 ∧ col < marker.hc) :
    Ahead row node col (lookAhead table row left marker) ∧
      col < (lookAhead table row left marker).hc := by
  induction left generalizing marker with
  | zero =>
    rw [lookAhead]
    obtain ⟨plain, behind⟩ := ended rfl
    refine ⟨⟨status, here, by omega, fun k first last => silent k first (by omega), ?_⟩, behind⟩
    exact fun _ => Or.inr ⟨silent _ (by omega) (by omega), plain, enough⟩
  | succ left ih =>
    have inRow : marker.hc ≤ row.length := by omega
    have isIn : IsBeginning (matchedAt row marker.hc) := isBeginning_pending _
    have update := reads.highlightUpdate isIn (byteAt row marker.hc)
    rw [← status, ← matchedAt_succ inRow] at update
    rw [lookAhead, update]
    cases found : mark (matchedAt row marker.hc) (byteAt row marker.hc) with
    | some report =>
      dsimp only
      refine ⟨⟨rfl, by dsimp only; omega, by dsimp only; omega, ?_, ?_⟩, by omega⟩
      · exact fun k first last => silent k first (Nat.lt_of_succ_lt_succ last)
      · exact fun _ => Or.inl found
    | none =>
      have silentNext (k : Nat) (first : col ≤ k) (last : k < marker.hc + 1) :
          event row k = none := by
        rcases Nat.lt_succ_iff_lt_or_eq.mp last with before | rfl
        · exact silent k first before
        · exact found
      dsimp only
      split
      · exact ih rfl (by dsimp only; omega) (by dsimp only; omega) silentNext
          fun _ => ⟨rfl, by dsimp only; omega⟩
      · exact ih rfl (by dsimp only; omega) (by dsimp only; omega) silentNext fun _ => by omega

/-- At each column the marker is ahead. -/
theorem advance_ahead (reads : Reads table node) (ahead : Ahead row node col marker)
    (inRow : col < row.length) :
    Ahead row node col (advance table true row col marker) ∧
      col < (advance table true row col marker).hc := by
  rw [advance]
  by_cases due : marker.hc ≤ col
  · rw [if_pos ⟨due, rfl⟩]
    exact lookAhead_ahead reads ahead.status ahead.here (by omega)
      (fun k first last => absurd first (by omega)) (by omega)
  · rw [if_neg fun both => due both.1]
    exact ⟨ahead, Nat.lt_of_not_le due⟩

theorem Ahead.next (ahead : Ahead row node col marker) (behind : col < marker.hc) :
    Ahead row node (col + 1) marker where
  status := ahead.status
  here := behind
  inside := ahead.inside
  silent := fun k first => ahead.silent k (by omega)
  holds := fun _ => ahead.holds behind

/-- The first report from a column on has a color and looks back to the column. -/
def Colored (row : Row) (col color : Nat) : Prop :=
  ∃ k count, col ≤ k ∧ k ≤ row.length ∧ (∀ j, col ≤ j → j < k → event row j = none) ∧
    event row k = some (color, count) ∧ k ≤ col + count

/-- A column gets the color of the first report if that looks back to it. -/
theorem curC_eq_iff (ahead : Ahead row node col marker) (behind : col < marker.hc)
    (isColor : color ≠ 0) : curC marker col = color ↔ Colored row col color := by
  have inside := ahead.inside
  rw [curC]
  constructor
  · intro drawn
    split at drawn
    · subst drawn
      rcases ahead.holds behind with found | ⟨-, plain, -⟩
      · exact ⟨marker.hc - 1, marker.count, by omega, by omega,
          fun j first last => ahead.silent j first (by omega), found, by omega⟩
      · exact absurd plain isColor
    · exact absurd drawn.symm isColor
  · rintro ⟨k, count, first, last, silent, found, reaches⟩
    have isReport : k = marker.hc - 1 := by
      rcases Nat.lt_trichotomy k (marker.hc - 1) with before | same | after
      · rw [ahead.silent k first (by omega)] at found
        cases found
      · exact same
      rcases ahead.holds behind with report | ⟨-, -, ended⟩
      · rw [silent (marker.hc - 1) (by omega) after] at report
        cases report
      · omega
    rcases ahead.holds behind with report | ⟨nothing, -⟩
    · rw [← isReport, found, some.injEq, Prod.mk.injEq] at report
      rw [if_pos (by omega), report.1]
    · rw [← isReport, found] at nothing
      cases nothing

/-- The colors with which the columns of a row are drawn. -/
theorem mem_columnColors (reads : Reads table node)
    (noHan : ∀ k, ¬ (isHan (byteAt row k) ∧ isHan (byteAt row (k + 1)))) (isColor : color ≠ 0)
    (ahead : Ahead row node col marker) (enough : col + left = row.length) (x : Nat) :
    (x, color) ∈ columnColors table true row left col marker ↔
      col ≤ x ∧ x < row.length ∧ Colored row x color := by
  induction left generalizing col marker with
  | zero =>
    rw [columnColors]
    simp only [not_mem_nil, false_iff]
    omega
  | succ left ih =>
    have inRow : col < row.length := by omega
    obtain ⟨aheadHere, behind⟩ := advance_ahead reads ahead inRow
    have single : (isHan (byteAt row col) && isHan (byteAt row (col + 1))) = false := by
      have notHan := noHan col
      rwa [← Bool.and_eq_true, Bool.not_eq_true] at notHan
    rw [columnColors, if_pos inRow, single, mem_cons, Prod.mk.injEq]
    rw [if_neg (by decide), ih (aheadHere.next behind) (by omega), eq_comm (a := color),
      curC_eq_iff aheadHere behind isColor]
    constructor
    · rintro (⟨rfl, colored⟩ | ⟨after, inside, colored⟩)
      · exact ⟨Nat.le_refl _, inRow, colored⟩
      · exact ⟨by omega, inside, colored⟩
    · rintro ⟨after, inside, colored⟩
      rcases Nat.eq_or_lt_of_le after with rfl | later
      · exact Or.inl ⟨rfl, colored⟩
      · exact Or.inr ⟨later, inside, colored⟩

end

theorem mem_rowColors {row : Row}
    (noHan : ∀ k, ¬ (isHan (byteAt row k) ∧ isHan (byteAt row (k + 1)))) (isColor : color ≠ 0)
    {col : Nat} (inRow : col < row.length) :
    (col, color) ∈ rowColors highlightInit true row ↔ Colored row col color := by
  obtain ⟨node, reads⟩ := highlightInit_reads
  have start : Ahead row node 0 ⟨0, 0, 0, 0⟩ := by
    refine ⟨reads.root.symm, Nat.le_refl _, Nat.zero_le _, ?_, ?_⟩
    · exact fun _ _ last => absurd last (Nat.not_lt_zero _)
    · exact fun last => absurd last (Nat.not_lt_zero _)
  rw [rowColors, mem_columnColors reads noHan isColor start (Nat.zero_add _)]
  exact ⟨fun drawn => drawn.2.2, fun colored => ⟨Nat.zero_le _, inRow, colored⟩⟩

/-! ## Comments -/

/-- A comment starts at an index of a row. -/
def StartsComment (row : Row) (p : Nat) : Prop :=
  byteAt row p = 35 ∨ byteAt row p = 47 ∧ byteAt row (p + 1) = 47

instance StartsComment.decidable (row : Row) (p : Nat) : Decidable (StartsComment row p) :=
  inferInstanceAs (Decidable (_ ∨ _))

/-- And nothing is half matched there. -/
def Recognized (row : Row) (p : Nat) : Prop :=
  StartsComment row p ∧ matchedAt row p = []

/-- The number of bytes with which the comment at an index starts. -/
def startLength (row : Row) (p : Nat) : Nat :=
  if byteAt row p = 35 then 1 else 2

theorem startLength_pos (row : Row) (p : Nat) : 0 < startLength row p := by
  rw [startLength]
  split <;> decide

theorem mem_special : word ∈ special ↔ word = [35] ∨ word = [47, 47] := by
  have words : special = [[35], [47, 47]] := by decide
  rw [words]
  simp

theorem colorOf_eq_special : colorOf word = specialColor ↔ word ∈ special := by
  rw [colorOf]
  split
  · simp [*]
  split
  · simpa [*] using show reserveColor ≠ specialColor by decide
  · split
    · simpa [*] using show typesColor ≠ specialColor by decide
    · simpa [*] using show 0 ≠ specialColor by decide

theorem specialColor_ne_zero : specialColor ≠ 0 := by decide

theorem follow_special (isSpecial : word ∈ special) (c : UInt8) : follow word c = word :=
  if_pos isSpecial

/-- A comment that is matched is reported at every byte. -/
theorem mark_special (isSpecial : word ∈ special) (c : UInt8) :
    mark word c = some (specialColor, 1) := by
  have nonempty : word ≠ [] := by
    rintro rfl
    exact absurd isSpecial (by decide)
  rw [mark, follow_special isSpecial, colorOf_eq_special.mpr isSpecial,
    if_neg fun both => nonempty both.2.1, if_pos ⟨specialColor_ne_zero, rfl⟩]

/-- The start of a comment is reported at its last byte. -/
theorem mark_entering {c : UInt8} (notSpecial : word ∉ special)
    (entered : follow word c ∈ special) :
    mark word c = some (specialColor, (follow word c).length - 1) := by
  have nonempty : follow word c ≠ [] := fun empty => absurd (empty ▸ entered) (by decide)
  have moved : follow word c ≠ word := fun same => notSpecial (same ▸ entered)
  rw [mark, if_neg fun both => nonempty both.2.1, if_neg fun both => moved both.2,
    colorOf_eq_special.mpr entered, if_pos ⟨specialColor_ne_zero, entered⟩]

/-- Nothing else is reported in the color of comments. -/
theorem follow_special_of_mark {c : UInt8} {count : Nat}
    (marked : mark word c = some (specialColor, count)) : follow word c ∈ special := by
  rw [mark] at marked
  split at marked
  · have isSpecial := colorOf_eq_special.mp (congrArg Prod.fst (some.inj marked))
    rwa [follow_special isSpecial]
  split at marked
  · have isSpecial := colorOf_eq_special.mp (congrArg Prod.fst (some.inj marked))
    rwa [follow_special isSpecial]
  split at marked
  · rename_i entered
    exact entered.2
  · cases marked

/-- A word is matched after a byte only if it ends with the byte. -/
theorem follow_eq_concat (start : Row) {c d : UInt8} (notSpecial : word ∉ special)
    (followed : follow word c = start ++ [d]) : word = start ∧ c = d := by
  rw [follow, if_neg notSpecial] at followed
  split at followed
  · obtain ⟨same, last⟩ := append_inj' followed rfl
    exact ⟨same, singleton_inj.mp last⟩
  · simp at followed

theorem follow_hash : follow [] 35 = [35] := by decide

theorem follow_slash : follow [] 47 = [47] := by decide

theorem follow_slash_slash : follow [47] 47 = [47, 47] := by decide

section

variable {row : Row} {k p col : Nat}

/-- Where a comment starts to be matched, one is recognized. -/
theorem recognized_of_entering (inside : k ≤ row.length) (before : matchedAt row k ∉ special)
    (after : matchedAt row (k + 1) ∈ special) :
    ∃ p, Recognized row p ∧ p + startLength row p = k + 1 ∧
      event row k = some (specialColor, startLength row p - 1) := by
  have next := matchedAt_succ inside
  rw [next] at after
  have marked := mark_entering before after
  rcases mem_special.mp after with isHash | isSlashes
  · obtain ⟨matched, byte⟩ := follow_eq_concat [] before isHash
    rw [isHash] at marked
    refine ⟨k, ⟨Or.inl byte, matched⟩, ?_, ?_⟩
    · rw [startLength, if_pos byte]
    · rw [startLength, if_pos byte]
      exact marked
  · obtain ⟨matched, byte⟩ := follow_eq_concat [47] before isSlashes
    cases k with
    | zero => cases matched
    | succ k =>
      rw [matchedAt_succ (by omega)] at matched
      have earlier : matchedAt row k ∉ special := by
        intro isSpecial
        rw [follow_special isSpecial] at matched
        exact absurd (matched ▸ isSpecial) (by decide)
      obtain ⟨nothing, first⟩ := follow_eq_concat [] earlier matched
      have length : startLength row k = 2 := by
        rw [startLength, first, if_neg (by decide)]
      rw [isSlashes] at marked
      refine ⟨k, ⟨Or.inr ⟨first, byte⟩, nothing⟩, ?_, ?_⟩
      · rw [length]
      · rw [length]
        exact marked

/-- A comment that is recognized is reported at the last byte of its start, not
before, and matched behind it. -/
theorem Recognized.reported (recognized : Recognized row p) :
    ∃ k, p ≤ k ∧ k < row.length ∧ matchedAt row (k + 1) ∈ special ∧
      event row k = some (specialColor, k - p) ∧ ∀ j, p ≤ j → j < k → event row j = none := by
  have inside {i : Nat} {c : UInt8} (isByte : byteAt row i = c) (nonzero : c ≠ 0) :
      i < row.length := by
    by_contra outside
    rw [byteAt, getD_eq_getElem?_getD, getElem?_eq_none (by omega)] at isByte
    exact nonzero isByte.symm
  obtain ⟨starts, matched⟩ := recognized
  rcases starts with isHash | ⟨first, second⟩
  · have bound := inside isHash (by decide)
    refine ⟨p, Nat.le_refl p, bound, ?_, ?_, by omega⟩
    · rw [matchedAt_succ bound.le, matched, isHash]
      decide
    · rw [event, matched, isHash, mark_entering (by decide), follow_hash, Nat.sub_self]
      · rfl
      · decide
  · have bound := inside second (by decide)
    have once : matchedAt row (p + 1) = [47] := by
      rw [matchedAt_succ (by omega), matched, first, follow_slash]
    have twice : follow [47] 47 ∈ special := by
      decide
    refine ⟨p + 1, Nat.le_succ p, bound, ?_, ?_, fun j after before => ?_⟩
    · rwa [matchedAt_succ bound.le, once, second]
    · rw [event, once, second, mark_entering (by decide) twice, follow_slash_slash,
        Nat.add_sub_cancel_left]
      rfl
    · rw [show j = p by omega, event, matched, first]
      decide

/-- From then on it stays matched. -/
theorem matchedAt_special_mono {j : Nat} (isSpecial : matchedAt row j ∈ special) (later : j ≤ k)
    (inside : k ≤ row.length + 1) : matchedAt row k ∈ special := by
  induction k, later using Nat.le_induction with
  | base => exact isSpecial
  | succ k later ih =>
    have before := ih (by omega)
    rwa [matchedAt_succ (by omega), follow_special before]

/-- Whatever is matched as a comment has been recognized. -/
theorem exists_recognized (inside : k ≤ row.length + 1) (isSpecial : matchedAt row k ∈ special) :
    ∃ p < k, Recognized row p := by
  induction k with
  | zero => exact absurd (show [] ∈ special from isSpecial) (by decide)
  | succ k ih =>
    by_cases before : matchedAt row k ∈ special
    · obtain ⟨p, earlier, recognized⟩ := ih (by omega) before
      exact ⟨p, by omega, recognized⟩
    · obtain ⟨p, recognized, ends, -⟩ := recognized_of_entering (by omega) before isSpecial
      have positive := startLength_pos row p
      exact ⟨p, by omega, recognized⟩

/-- The columns in the color of comments are those from a recognized one on. -/
theorem colored_special_iff (inRow : col < row.length) :
    Colored row col specialColor ↔ ∃ p ≤ col, Recognized row p := by
  constructor
  · rintro ⟨k, count, first, last, silent, found, reaches⟩
    have after : matchedAt row (k + 1) ∈ special := by
      rw [matchedAt_succ last]
      exact follow_special_of_mark found
    by_cases before : matchedAt row k ∈ special
    · obtain ⟨p, earlier, recognized⟩ := exists_recognized (by omega) before
      refine ⟨p, ?_, recognized⟩
      by_contra late
      -- The byte before would have been reported as well.
      cases k with
      | zero => exact absurd (show [] ∈ special from before) (by decide)
      | succ k =>
        have nothing := silent k (by omega) (Nat.lt_succ_self k)
        by_cases still : matchedAt row k ∈ special
        · rw [event, mark_special still] at nothing
          cases nothing
        · obtain ⟨_, -, -, report⟩ := recognized_of_entering (by omega) still before
          rw [nothing] at report
          cases report
    · obtain ⟨p, recognized, ends, report⟩ := recognized_of_entering last before after
      have positive := startLength_pos row p
      have isCount := congrArg Prod.snd (some.inj (found.symm.trans report))
      exact ⟨p, by omega, recognized⟩
  · rintro ⟨p, before, recognized⟩
    obtain ⟨k, after, inside, matched, report, silent⟩ := recognized.reported
    by_cases behind : k < col
    · have isSpecial := matchedAt_special_mono matched behind (by omega)
      refine ⟨col, 1, Nat.le_refl _, inRow.le, by omega, ?_, by omega⟩
      exact mark_special isSpecial _
    · refine ⟨k, _, by omega, by omega, ?_, report, by omega⟩
      exact fun j first last => silent j (by omega) last

end

theorem matchedAt_eq_pending {row : Row} {p : Nat} (inside : p ≤ row.length) :
    matchedAt row p = pending (row.take p) := by
  rw [matchedAt, take_append_of_le_length inside]

/-- In a row without Han characters the columns in the color of comments are those
from the first comment on exactly when the bytes before it leave no word half
matched. -/
theorem comments_colored_iff {row : Row}
    (noHan : ∀ k, ¬ (isHan (byteAt row k) ∧ isHan (byteAt row (k + 1)))) :
    (∀ col < row.length, (col, specialColor) ∈ rowColors highlightInit true row ↔
      ∃ p ≤ col, StartsComment row p) ↔
    ∀ p, StartsComment row p → (∀ q < p, ¬ StartsComment row q) → pending (row.take p) = [] := by
  have inside {p : Nat} (starts : StartsComment row p) : p < row.length := by
    by_contra outside
    have noByte : byteAt row p = 0 := by
      rw [byteAt, getD_eq_getElem?_getD, getElem?_eq_none (by omega)]
      rfl
    rcases starts with isHash | ⟨isSlash, -⟩
    · exact absurd (noByte.symm.trans isHash) (by decide)
    · exact absurd (noByte.symm.trans isSlash) (by decide)
  have drawn {col : Nat} (inRow : col < row.length) :
      (col, specialColor) ∈ rowColors highlightInit true row ↔ ∃ p ≤ col, Recognized row p := by
    rw [mem_rowColors noHan specialColor_ne_zero inRow, colored_special_iff inRow]
  constructor
  · intro all p starts isFirst
    have inRow := inside starts
    obtain ⟨q, atMost, recognized⟩ :=
      (drawn inRow).mp ((all p inRow).mpr ⟨p, Nat.le_refl p, starts⟩)
    have same : q = p := by
      by_contra other
      exact isFirst q (by omega) recognized.1
    rw [← matchedAt_eq_pending inRow.le, ← same]
    exact recognized.2
  · intro unmatched col inRow
    rw [drawn inRow]
    constructor
    · rintro ⟨p, before, recognized⟩
      exact ⟨p, before, recognized.1⟩
    rintro ⟨p, before, starts⟩
    have found : ∃ q, StartsComment row q := ⟨p, starts⟩
    have isFirst := Nat.find_spec found
    refine ⟨Nat.find found, (Nat.find_min' found starts).trans before, isFirst, ?_⟩
    rw [matchedAt_eq_pending (inside isFirst).le]
    exact unmatched _ isFirst fun q earlier => Nat.find_min found earlier

theorem noHan_of_single {row : Row} (single : row.any isHan = false) (k : Nat) :
    ¬ (isHan (byteAt row k) ∧ isHan (byteAt row (k + 1))) := by
  rintro ⟨high, -⟩
  rw [byteAt, getD_eq_getElem?_getD] at high
  cases found : row[k]? with
  | none =>
    rw [found] at high
    exact absurd high (by decide)
  | some c =>
    rw [found] at high
    exact List.any_eq_false.mp single c (mem_of_getElem? found) high

/-- Behind a blank a comment is recognized. -/
theorem comments_colored_behind_blank :
    StartsComment [105, 32, 47, 47] 2 ∧
      ∀ col < 4, (col, specialColor) ∈ rowColors highlightInit true [105, 32, 47, 47] ↔
        ∃ p ≤ col, StartsComment [105, 32, 47, 47] p := by
  have noHan := @noHan_of_single [105, 32, 47, 47] (by decide)
  refine ⟨by decide, ?_⟩
  refine (comments_colored_iff noHan).mpr fun p starts isFirst => ?_
  match p, starts with
  | 0, starts => exact absurd starts (by decide)
  | 1, starts => exact absurd starts (by decide)
  | 2, _ => decide
  | p + 3, _ => exact absurd (isFirst 2 (by omega)) (by decide)

/-- Behind `i`, with which a word begins, it is not. -/
theorem comment_not_colored :
    StartsComment [105, 47, 47] 1 ∧
      (1, specialColor) ∉ rowColors highlightInit true [105, 47, 47] := by
  refine ⟨by decide, ?_⟩
  rw [mem_rowColors (noHan_of_single (by decide)) specialColor_ne_zero (by decide),
    colored_special_iff (by decide)]
  rintro ⟨p, before, starts, matched⟩
  rcases Nat.le_one_iff_eq_zero_or_eq_one.mp before with rfl | rfl
  · exact absurd starts (by decide)
  · exact absurd matched (by decide)

end XEditor.Highlight
