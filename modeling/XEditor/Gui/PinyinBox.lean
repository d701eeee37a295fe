import XEditor.Edit.FlatBuffer
import XEditor.Gui.InputTarget
import XEditor.Pinyin.Table

/-!
# What the pinyin box shows and commits

The second row of the box lists the candidates for the letters in the first row,
and a digit looks its candidate up again.  Over every sequence of keys both ask for
the same letters and the same page.
-/

namespace XEditor.Gui

open List Option Buffer Edit Pairing Pinyin Run Text

/-- The answers of `get_pinyin_ith_han` for a table in memory. -/
def tableOf (trie : PinyinTrie) : PinyinTable where
  han row i := (getPinyinIthHan trie row i).bind Prod.snd
  deep row := ((getPinyinIthHan trie row 0).map Prod.fst).getD 0

/-- The candidates of a page, each behind its digit and a point. -/
def hanRow (table : PinyinTable) (row : Row) (page : Int) : (left i : Nat) → Row
  | 0, _ => []
  | left + 1, i =>
    ((table.han row (page * itemEveryPage + i)).elim [] fun han =>
      [UInt8.ofNat (49 + i), 46, han.1, han.2]) ++ hanRow table row page left (i + 1)

/-- The character that a row shows behind a digit and a point. -/
def shownBehind (digit : UInt8) : Row → Option (UInt8 × UInt8)
  | d :: point :: first :: second :: rest =>
    if d = digit ∧ point = 46 then some (first, second) else shownBehind digit rest
  | _ => none

/-- The letters without the first ones and the apostrophes behind them. -/
def restOf (row : Row) (count : Nat) : Row :=
  (row.drop count).dropWhile (· = UInt8.ofNat apostrophe.toNat)

/-- Letters and apostrophes, a letter first, as many as an `int` counts. -/
structure Letters (row : Row) : Prop where
  letters : ∀ c ∈ row, isSmall c = true ∨ c = 39
  starts : ∀ c ∈ row.head?, isSmall c = true
  short : (row.length : Int) ≤ intMax

/-- The numbers of the candidates on a page, and twice each of them, fit into an
`int`. -/
def PageFits (page : Int) : Prop :=
  0 ≤ page ∧ page * itemEveryPage + itemEveryPage ≤ 2 ^ 30

/-- The box has two rows: letters, and the candidates for them on its page. -/
structure Box (table : PinyinTable) (pinyin : PinyinInput) (row : Row) : Prop
    extends Letters row where
  data : pinyin.edit.text.data = [row, hanRow table row pinyin.page 5 0]
  noSelection : pinyin.edit.point2Col = -1
  page : PageFits pinyin.page

/-- A key for the box, or a change of anything around it. -/
inductive BoxEvent where
  | key (c : Int)
  | around (others : BufferManager)

def boxStep (table : PinyinTable) (manager : BufferManager) : BoxEvent → Option BufferManager
  | .key c => (handleKeyboardPinyinInput table manager c).map (·.getD manager)
  | .around others => some { others with pinyin := manager.pinyin }

/-- The condition on a key: the number of a candidate and that of the letters stay
inside an `int`. -/
def KeepsBox (manager : BufferManager) : BoxEvent → Prop
  | .key c =>
    (c = period → (manager.pinyin.page + 1) * itemEveryPage + itemEveryPage ≤ 2 ^ 30) ∧
      ∀ row, manager.pinyin.edit.text.line? 0 = some row → (row.length : Int) < intMax
  | .around _ => True

/-- A digit is refused, and nothing changes, if the second row shows nothing behind
it.  Otherwise what it shows is put into the text with the focus at the cursor, and
the letters the lookup matched are taken out of the box. -/
structure CommitsShown (table : PinyinTable) (manager : BufferManager) (ref : EditRef)
    (above : List Row) (left right : Row) (below : List Row) (row shown : Row) (i : Nat) :
    Prop where
  refused : shownBehind (UInt8.ofNat (49 + i)) shown = none →
    handleKeyboardPinyinInput table manager (49 + i) = some none
  committed : ∀ han, shownBehind (UInt8.ofNat (49 + i)) shown = some han → ∃ next typed second,
    handleKeyboardPinyinInput table manager (49 + i) = some (some next) ∧
      next.textOf ref = some typed ∧
      typed.data = above ++ (left ++ [han.1, han.2] ++ right) :: below ∧
      (∀ other, other ≠ ref → next.textOf other = manager.textOf other) ∧
      next.pinyin.edit.text.data = [restOf row (table.deep row), second]

/-! ## Typing -/

section

variable {text : Textframe} {above below : List Row} {left right : Row}

theorem located_end {row : Row} (data : text.data = above ++ row :: below)
    (short : (row.length : Int) ≤ intMax) :
    Located (moveToPos text above.length (-1)) above row [] below := by
  have column : posColumn row (-1) = row.length := rowEnd_eq_length short
  have moved := Located.moveToPos_row data (-1)
  rwa [column, take_length, drop_length] at moved

/-- At the end of a row all bytes go behind it. -/
theorem typeBytes_end {str : Row} (noNul : 0 ∉ str) (located : Located text above left [] below) :
    ∃ next, typeBytes text str = some next ∧ Located next above (left ++ str) [] below := by
  induction str generalizing text left with
  | nil => exact ⟨text, rfl, by simpa using located⟩
  | cons ch rest ih =>
    rw [mem_cons, not_or] at noNul
    obtain ⟨moved, movedLocated, called⟩ := located.putcToStr_next (Ne.symm noNul.1)
    rw [movedLocated.adjustCursor_boundary (insideHan_append_nil _)] at called
    obtain ⟨next, typed, nextLocated⟩ := ih noNul.2 movedLocated
    refine ⟨next, ?_, by simpa using nextLocated⟩
    rw [typeBytes, typeByte, called, bind_some, typed]

/-- Two bytes stay together unless the cursor jumps over a byte between them; what
is behind the first byte may be the second one already. -/
theorem typed_together_iff (located : Located text above left right below) {first second : UInt8}
    (firstNotNul : first ≠ 0) (secondNotNul : second ≠ 0) :
    ∃ typed, typeBytes text [first, second] = some typed ∧
      (typed.data = above ++ (left ++ [first, second] ++ right) :: below ↔
        insideHan (left ++ [first] ++ right) (left ++ [first]).length = false ∨
          right.head? = some second) := by
  obtain ⟨moved, movedLocated, typeFirst⟩ := located.putcToStr_next firstNotNul
  have both {last : Textframe} (typeSecond : typeByte (adjustCursor moved 0 1) second = some last) :
      typeBytes text [first, second] = some last := by
    rw [typeBytes, typeByte, typeFirst, bind_some, typeBytes, typeSecond]
    rfl
  cases inside : insideHan (left ++ [first] ++ right) (left ++ [first]).length with
  | false =>
    rw [movedLocated.adjustCursor_boundary inside] at both
    obtain ⟨last, lastLocated, typeSecond⟩ := movedLocated.putcToStr_next secondNotNul
    refine ⟨_, both typeSecond, iff_of_true ?_ (.inl rfl)⟩
    simpa [adjustCursor] using lastLocated.data_eq
  | true =>
    cases right with
    | nil =>
      rw [insideHan_append_nil] at inside
      cases inside
    | cons third rest =>
      obtain ⟨last, lastLocated, typeSecond⟩ :=
        (movedLocated.adjustCursor_right inside).putcToStr_next secondNotNul
      refine ⟨_, both typeSecond, ?_⟩
      simp [adjustCursor, lastLocated.data_eq, eq_comm]

end

/-! ## Candidates -/

/-- What a commit needs of the answers: no more letters than there are, no byte NUL,
and nothing without letters. -/
structure Sound (table : PinyinTable) : Prop where
  deep_le : ∀ row, table.deep row ≤ row.length
  noNul : ∀ row i han, 0 ≤ i → i < 2 ^ 30 → table.han row i = some han → han.1 ≠ 0 ∧ han.2 ≠ 0
  nothing : ∀ i, 0 ≤ i → i < 2 ^ 30 → table.han [] i = none

section

variable {table : PinyinTable} {row : Row} {page : Int}

theorem digit_ne {i k : Nat} (iSmall : i < 5) (kSmall : k < 5) (different : i ≠ k) :
    UInt8.ofNat (49 + i) ≠ UInt8.ofNat (49 + k) := by
  intro same
  have values := congrArg UInt8.toNat same
  rw [UInt8.toNat_ofNat', UInt8.toNat_ofNat'] at values
  omega

/-- Behind a digit stands the candidate that the digit looks up. -/
theorem shownBehind_hanRow {left i k : Nat} (small : k < 5) (few : i + left ≤ 5) :
    shownBehind (UInt8.ofNat (49 + k)) (hanRow table row page left i) =
      if i ≤ k ∧ k < i + left then table.han row (page * itemEveryPage + k) else none := by
  induction left generalizing i with
  | zero =>
    rw [if_neg (by omega)]
    rfl
  | succ left ih =>
    rw [hanRow]
    cases found : table.han row (page * itemEveryPage + i) with
    | none =>
      rw [elim_none, nil_append, ih (by omega)]
      by_cases here : i = k
      · rw [if_neg (by omega), if_pos (by omega), ← here, found]
      · exact if_congr (by omega) rfl rfl
    | some han =>
      change (if _ then some han else shownBehind _ (hanRow table row page left (i + 1))) = _
      by_cases here : i = k
      · rw [if_pos ⟨by rw [here], rfl⟩, if_pos (by omega), ← here, found]
      · rw [if_neg fun same => digit_ne (by omega) small here same.1, ih (by omega)]
        exact if_congr (by omega) rfl rfl

theorem PageFits.zero : PageFits 0 :=
  ⟨by decide, by decide⟩

theorem PageFits.index (fits : PageFits page) {i : Nat} (small : i < 5) :
    0 ≤ page * itemEveryPage + i ∧ page * itemEveryPage + i < 2 ^ 30 := by
  obtain ⟨nonneg, inside⟩ := fits
  simp only [itemEveryPage] at inside ⊢
  omega

variable (sound : Sound table) (fits : PageFits page) {left i : Nat} (few : i + left ≤ 5)
include sound fits few

theorem hanRow_nil : hanRow table [] page left i = [] := by
  induction left generalizing i with
  | zero => rfl
  | succ left ih =>
    obtain ⟨nonneg, bound⟩ := fits.index (show i < 5 by omega)
    rw [hanRow, sound.nothing _ nonneg bound, ih (by omega)]
    rfl

/-- The loop lists the candidates behind what stands in the second row. -/
theorem updateHanLoop_eq {text : Textframe} {out : Row} (data : text.data = [row, out])
    (short : out.length ≤ 4 * i) :
    ∃ next, updateHanLoop table page left i text = some next ∧
      next.data = [row, out ++ hanRow table row page left i] := by
  induction left generalizing i text out with
  | zero => exact ⟨text, rfl, by simpa [hanRow] using data⟩
  | succ left ih =>
    have first : text.line? 0 = some row := by
      change text.line? ((0 : Nat) : Int) = _
      rw [Textframe.line?_natCast, data]
      rfl
    rw [updateHanLoop, first, hanRow]
    simp only [bind_eq_bind, bind_some]
    cases found : table.han row (page * itemEveryPage + i) with
    | none => exact ih (by omega) data (by omega)
    | some han =>
      obtain ⟨nonneg, bound⟩ := fits.index (show i < 5 by omega)
      have bytes := sound.noNul _ _ _ nonneg bound found
      have digit : (0 : UInt8) ≠ UInt8.ofNat (49 + i) := by
        intro isNul
        have value := congrArg UInt8.toNat isNul
        rw [UInt8.toNat_ofNat', show (0 : UInt8).toNat = 0 from rfl] at value
        omega
      have noNul : 0 ∉ [UInt8.ofNat (49 + i), 46, han.1, han.2] := by
        simp only [mem_cons, not_mem_nil, or_false, not_or]
        exact ⟨digit, by decide, bytes.1.symm, bytes.2.symm⟩
      have fits : (out.length : Int) ≤ intMax := by
        rw [intMax]
        omega
      obtain ⟨typed, called, typedLocated⟩ := typeBytes_end noNul
        (@located_end text [row] [] out data fits)
      have data' : (moveToPos typed 0 (-1)).data =
          [row, out ++ [UInt8.ofNat (49 + i), 46, han.1, han.2]] := by
        rw [moveToPos_data, typedLocated.data_eq, append_nil]
        rfl
      have short' : (out ++ [UInt8.ofNat (49 + i), 46, han.1, han.2]).length ≤
          4 * (i + 1) := by
        rw [length_append]
        exact Nat.add_le_add_right short 4
      obtain ⟨next, rest, nextData⟩ := ih (by omega) data' short'
      refine ⟨next, ?_, by rw [nextData, append_assoc]; rfl⟩
      rw [length_singleton, Nat.cast_one] at called
      simp only [called, bind_some]
      exact rest

end

/-! ## One key -/

section

variable {table : PinyinTable} {pinyin : PinyinInput} {row second : Row}

/-- The candidates are listed again, whatever stood in the second row. -/
theorem updateHanList_box (sound : Sound table) (letters : Letters row)
    (data : pinyin.edit.text.data = [row, second]) (noSelection : pinyin.edit.point2Col = -1)
    (page : PageFits pinyin.page) :
    ∃ next, pinyinUpdateHanList table pinyin = some next ∧ Box table next row := by
  have located := @Located.moveToPos_row [row] [] pinyin.edit.text second data (-1)
  rw [length_singleton, Nat.cast_one] at located
  have cleared : (clearCurLine (moveToPos pinyin.edit.text 1 (-1))).data = [row, []] := by
    rw [clearCurLine, if_pos (by rw [located.maxrow_eq, located.row_eq]; simp)]
    exact located.set_row []
  obtain ⟨text, called, textData⟩ :=
    updateHanLoop_eq sound page (show 0 + 5 ≤ 5 by decide) cleared (Nat.le_refl 0)
  refine ⟨{ pinyin with edit := { pinyin.edit with text := text } }, ?_, letters, textData,
    noSelection, page⟩
  have five : itemEveryPage.toNat = 5 := rfl
  rw [pinyinUpdateHanList, five, called]
  rfl

theorem Letters.nil : Letters [] :=
  ⟨by simp, by simp, by decide⟩

theorem Letters.concat (isLetters : Letters row) {c : UInt8} (isKey : isSmall c = true ∨ c = 39)
    (first : row = [] → isSmall c = true) (short : (row.length : Int) < intMax) :
    Letters (row ++ [c]) where
  letters := by
    intro d isIn
    rcases mem_append.mp isIn with old | new
    · exact isLetters.letters d old
    · exact mem_singleton.mp new ▸ isKey
  starts := by
    intro d isHead
    cases row with
    | nil => exact (some.inj isHead) ▸ first rfl
    | cons head rest => exact isLetters.starts d isHead
  short := by
    rw [length_append, length_singleton]
    omega

theorem Letters.dropLast {c : UInt8} (isLetters : Letters (row ++ [c])) : Letters row where
  letters := fun d isIn => isLetters.letters d (mem_append_left _ isIn)
  starts := by
    intro d isHead
    refine isLetters.starts d ?_
    rw [List.head?_append, mem_def.mp isHead]
    rfl
  short := by
    have short := isLetters.short
    rw [length_append] at short
    omega

theorem Letters.restOf (isLetters : Letters row) (count : Nat) : Letters (restOf row count) := by
  have suffix : Gui.restOf row count <:+ row :=
    (dropWhile_suffix _).trans (drop_suffix _ _)
  refine ⟨fun c isIn => isLetters.letters c (suffix.subset isIn), fun c isHead => ?_, ?_⟩
  · have notApostrophe := head?_dropWhile_not (· = UInt8.ofNat apostrophe.toNat)
      (row.drop count)
    rw [← Gui.restOf, mem_def.mp isHead] at notApostrophe
    refine (isLetters.letters c (suffix.subset (mem_of_head? isHead))).resolve_right ?_
    exact of_decide_eq_false notApostrophe
  · have fewer := suffix.length_le
    have short := isLetters.short
    omega

theorem isSmall_of_isLetter {c : Int} (isSmallLetter : isLetter c = true) :
    isSmall (UInt8.ofNat c.toNat) = true := by
  rw [isLetter, decide_eq_true_eq] at isSmallLetter
  rw [isSmall, decide_eq_true_eq, UInt8.le_iff_toNat_le, UInt8.le_iff_toNat_le,
    toNat_printable (by omega)]
  simp only [UInt8.reduceToNat]
  omega

theorem isHan_of_key {c : UInt8} (isKey : isSmall c = true ∨ c = 39) : isHan c = false := by
  simp only [isSmall, decide_eq_true_eq, ← UInt8.toNat_inj, UInt8.le_iff_toNat_le] at isKey
  rw [isHan, decide_eq_false_iff_not, UInt8.le_iff_toNat_le]
  simp only [UInt8.reduceToNat] at isKey ⊢
  omega

theorem Letters.paired (isLetters : Letters row) : Paired isHan row :=
  paired_of_unmarked fun c isIn => isHan_of_key (isLetters.letters c isIn)

theorem Box.line (box : Box table pinyin row) : pinyin.edit.text.line? 0 = some row := by
  change pinyin.edit.text.line? ((0 : Nat) : Int) = _
  rw [Textframe.line?_natCast, box.data]
  rfl

/-- A key that turns the page, is typed into the first row or removes its last
byte. -/
theorem Box.editKey (box : Box table pinyin row) (clipBoard : Option Textframe) {c : Int}
    (isKey : isLetter c = true ∨ c = backspace ∨ c = comma ∨ c = period ∨ c = apostrophe)
    (first : row = [] → isLetter c = true) (short : (row.length : Int) < intMax)
    (turns : c = period → (pinyin.page + 1) * itemEveryPage + itemEveryPage ≤ 2 ^ 30) :
    ∃ next row', pinyinEditKey pinyin clipBoard c = some (next, clipBoard) ∧ Letters row' ∧
      next.edit.text.data = [row', hanRow table row pinyin.page 5 0] ∧
        next.edit.point2Col = -1 ∧
          PageFits next.page := by
  have page := box.page
  rw [pinyinEditKey]
  by_cases back : c = comma
  · rw [if_pos back]
    refine ⟨_, row, rfl, box.toLetters, box.data, box.noSelection, ?_⟩
    simp only [PageFits, itemEveryPage] at page ⊢
    split <;> omega
  by_cases forth : c = period
  · rw [if_neg back, if_pos forth]
    exact ⟨_, row, rfl, box.toLetters, box.data, box.noSelection,
      Int.add_nonneg page.1 (by decide), turns forth⟩
  rw [if_neg back, if_neg forth]
  have located := @located_end pinyin.edit.text [] _ row box.data box.short
  rw [length_nil, Nat.cast_zero] at located
  by_cases removes : c = backspace
  · subst removes
    obtain rfl | ⟨init, last, rfl⟩ := row.eq_nil_or_concat'
    · cases first rfl
    obtain ⟨text, called, textLocated⟩ := backspaceText_char
      (IsChar.single (isHan_of_key (box.letters last (by simp)))) box.dropLast.paired located
    have handled := @backspace_eq { pinyin.edit with text := moveToPos pinyin.edit.text 0 (-1) }
      box.noSelection clipBoard text called
    refine ⟨_, init, bind_eq_some_iff.mpr ⟨_, handled, rfl⟩, box.dropLast, ?_, rfl, .zero⟩
    exact textLocated.data_eq.trans (by rw [append_nil]; rfl)
  · have isTyped : isLetter c = true ∨ c = apostrophe :=
      isKey.imp_right fun others =>
        ((others.resolve_left removes).resolve_left back).resolve_left forth
    have range : 32 ≤ c ∧ c ≤ 126 := by
      simp only [isLetter, decide_eq_true_eq, apostrophe] at isTyped
      omega
    obtain ⟨next, handled, noSelection, nextLocated⟩ := @printable_located
      { pinyin.edit with text := moveToPos pinyin.edit.text 0 (-1) } _ _ _ _ box.noSelection
      clipBoard located c range.1 range.2
    have isKey' : isSmall (UInt8.ofNat c.toNat) = true ∨ UInt8.ofNat c.toNat = 39 :=
      isTyped.imp isSmall_of_isLetter fun same => by rw [same]; rfl
    refine ⟨_, _, bind_eq_some_iff.mpr ⟨_, handled, rfl⟩, box.concat isKey'
      (fun empty => isSmall_of_isLetter (first empty)) short, ?_, noSelection, .zero⟩
    exact nextLocated.data_eq.trans (by rw [append_nil]; rfl)

/-- A commit makes the box anew. -/
theorem Box.shorten (sound : Sound table) (box : Box table pinyin row) {count : Nat}
    (inside : count ≤ row.length) :
    ∃ next, shortenBox table pinyin row count = some next ∧ Box table next (restOf row count) := by
  have letters := box.restOf count
  have located := @located_end (lineEditSetStr (restOf row count)) [] [] _ rfl letters.short
  obtain ⟨text, called, textLocated⟩ := located.newLineToEditor (insideHan_append_nil _)
  have data : (moveToPos text 0 (-1)).data = [restOf row count, []] := by
    rw [moveToPos_data, textLocated.data_eq]
    rfl
  obtain ⟨next, updated, nextBox⟩ := @updateHanList_box table
    { pinyin with edit := { pinyin.edit with text := moveToPos text 0 (-1) } } _ _ sound letters
    data box.noSelection box.page
  refine ⟨next, ?_, nextBox⟩
  rw [shortenBox, if_neg (by omega)]
  exact bind_eq_some_iff.mpr ⟨text, called, updated⟩

end

section

variable {table : PinyinTable} {manager next : BufferManager} {row : Row}

/-- Changing a text leaves the box. -/
theorem BufferManager.modifyText_pinyin (manager : BufferManager) (ref : EditRef)
    (change : Textframe → Option Textframe) :
    (manager.modifyText ref change).map BufferManager.pinyin =
      ((manager.textOf ref).bind change).map fun _ => manager.pinyin := by
  cases ref with
  | control id =>
    rw [modifyText, textOf]
    cases manager.controls[id]? with
    | none => rfl
    | some control => cases changed : change control.edit.text <;> simp [changed, setControlEdit]
  | search =>
    rw [modifyText, textOf]
    cases changed : change manager.fileSwitch.search.edit.text <;> simp [changed, setSearchEdit]
  | file id =>
    rw [modifyText, textOf]
    cases manager.buffers[id]? with
    | none => rfl
    | some buffer => cases changed : change buffer.edit.text <;> simp [changed, setEdit]

theorem committed_le (sound : Sound table) {pinyin : PinyinInput} {c : Int} {str : Row}
    {count : Nat} (commits : committed table pinyin row c = some (str, count)) :
    count ≤ row.length := by
  rw [committed] at commits
  split at commits
  · cases commits
    exact Nat.le_refl _
  · obtain ⟨han, -, commits⟩ := map_eq_some_iff.mp commits
    cases commits
    exact sound.deep_le row

/-- Every key leaves a box. -/
theorem boxStep_keeps (sound : Sound table) {event : BoxEvent}
    (box : ∃ row, Box table manager.pinyin row) (keeps : KeepsBox manager event)
    (stepped : boxStep table manager event = some next) : ∃ row, Box table next.pinyin row := by
  obtain ⟨row, box⟩ := box
  cases event with
  | around others =>
    cases stepped
    exact ⟨row, box⟩
  | key c =>
    have short := keeps.2 row box.line
    obtain ⟨result, handled, rfl⟩ := map_eq_some_iff.mp stepped
    rw [handleKeyboardPinyinInput, box.line, bind_eq_bind, bind_some] at handled
    split_ifs at handled with refused edits commits
    · cases handled
      exact ⟨row, box⟩
    · have first : row = [] → isLetter c = true := fun empty => by
        simpa [empty] using refused
      obtain ⟨edited, row', called, letters, data, noSelection, page⟩ :=
        box.editKey manager.clipBoard edits first short keeps.1
      obtain ⟨updated, updating, nextBox⟩ := updateHanList_box sound letters data noSelection page
      simp only [called, updating, bind_eq_bind, bind_some] at handled
      cases handled
      exact ⟨row', nextBox⟩
    · split at handled
      · rename_i ref str count isFocus isCommit
        obtain ⟨typed, modified, handled⟩ := bind_eq_some_iff.mp handled
        have kept := manager.modifyText_pinyin ref fun text => typeBytes text str
        rw [modified] at kept
        obtain ⟨-, -, same⟩ := map_eq_some_iff.mp kept.symm
        rw [← same] at handled
        obtain ⟨shortened, called, nextBox⟩ := box.shorten sound (committed_le sound isCommit)
        rw [called] at handled
        cases handled
        exact ⟨_, nextBox⟩
      · cases handled
        exact ⟨row, box⟩
    · cases handled
      exact ⟨row, box⟩

section

variable (sound : Sound table) (box : Box table manager.pinyin row) {i : Nat} (small : i < 5)

include box small

/-- A digit reaches the commit, with its own candidate. -/
theorem Box.digit_eq (nonempty : row ≠ []) : handleKeyboardPinyinInput table manager (49 + i) =
    (match manager.cursorFocus, (table.han row (manager.pinyin.page * itemEveryPage + i)).map
        fun han => ([han.1, han.2].takeWhile (· ≠ 0), table.deep row) with
    | some ref, some (str, count) => do
      let manager ← manager.modifyText ref fun text => typeBytes text str
      let pinyin ← shortenBox table manager.pinyin row count
      some (some { manager with pinyin := pinyin })
    | _, _ => some none) := by
  have noEdit : ¬ (isLetter (49 + i) = true ∨ 49 + (i : Int) = backspace ∨ 49 + (i : Int) = comma ∨
      49 + (i : Int) = period ∨ 49 + (i : Int) = apostrophe) := by
    simp only [isLetter, decide_eq_true_eq, backspace, comma, period, apostrophe]
    omega
  have index : 49 + (i : Int) - 48 - 1 + manager.pinyin.page * itemEveryPage =
      manager.pinyin.page * itemEveryPage + i := by
    omega
  rw [handleKeyboardPinyinInput, box.line, bind_eq_bind, bind_some,
    if_neg (fun empty => nonempty empty.1), if_neg noEdit,
    if_pos (by simp only [itemEveryPage]; omega), committed, if_neg (by simp only [enter]; omega),
    index]
  rfl

theorem Box.refuses (nothing : table.han row (manager.pinyin.page * itemEveryPage + i) = none) :
    handleKeyboardPinyinInput table manager (49 + i) = some none := by
  by_cases empty : row = []
  · rw [handleKeyboardPinyinInput, box.line, bind_eq_bind, bind_some, if_pos]
    refine ⟨empty, ?_⟩
    rw [isLetter, decide_eq_false_iff_not]
    omega
  · rw [box.digit_eq small empty, nothing]
    cases manager.cursorFocus <;> rfl

variable {ref : EditRef} (focus : manager.cursorFocus = some ref) {text : Textframe}
  (target : manager.textOf ref = some text)

include sound focus target

/-- A candidate is typed into the target, and the box loses the letters matched. -/
theorem Box.commits {han : UInt8 × UInt8}
    (found : table.han row (manager.pinyin.page * itemEveryPage + i) = some han)
    {typed : Textframe} (typing : typeBytes text [han.1, han.2] = some typed) :
    ∃ next second, handleKeyboardPinyinInput table manager (49 + i) = some (some next) ∧
      next.textOf ref = some typed ∧
      (∀ other, other ≠ ref → next.textOf other = manager.textOf other) ∧
      next.pinyin.edit.text.data = [restOf row (table.deep row), second] := by
  obtain ⟨nonneg, bound⟩ := box.page.index small
  have nonempty : row ≠ [] := by
    rintro rfl
    rw [sound.nothing _ nonneg bound] at found
    cases found
  have noNul := sound.noNul _ _ _ nonneg bound found
  have bytes : [han.1, han.2].takeWhile (· ≠ 0) = [han.1, han.2] := by
    simp [noNul.1, noNul.2]
  have kept := manager.modifyText_pinyin ref fun text => typeBytes text [han.1, han.2]
  rw [target, bind_some, typing] at kept
  obtain ⟨next, modified, same⟩ := map_eq_some_iff.mp kept
  obtain ⟨⟨before, changed, target', typing', after⟩, others⟩ := textOf_modifyText modified
  obtain rfl : text = before := some.inj (target.symm.trans target')
  obtain rfl : typed = changed := some.inj (typing.symm.trans typing')
  obtain ⟨shortened, shortens, nextBox⟩ := box.shorten sound (sound.deep_le row)
  refine ⟨{ next with pinyin := shortened }, _, ?_, after, others, nextBox.data⟩
  rw [box.digit_eq small nonempty, focus, found, map_some, bytes]
  simp only [modified, same, shortens, bind_eq_bind, bind_some]

/-- A digit commits what the second row shows behind it exactly if the cursor of the
target does not jump between the two bytes. -/
theorem Box.commit_iff {above below : List Row} {left right : Row}
    (located : Located text above left right below) :
    CommitsShown table manager ref above left right below row
        (hanRow table row manager.pinyin.page 5 0) i ↔
      ∀ han, shownBehind (UInt8.ofNat (49 + i)) (hanRow table row manager.pinyin.page 5 0) =
          some han →
        insideHan (left ++ [han.1] ++ right) (left ++ [han.1]).length = false ∨
          right.head? = some han.2 := by
  have shown := @shownBehind_hanRow table row manager.pinyin.page 5 0 i small (by omega)
  rw [if_pos (by omega)] at shown
  constructor
  · intro commits han isShown
    rw [shown] at isShown
    obtain ⟨nonneg, bound⟩ := box.page.index small
    obtain ⟨firstNotNul, secondNotNul⟩ := sound.noNul _ _ _ nonneg bound isShown
    obtain ⟨typed, typing, typed_iff⟩ := typed_together_iff located firstNotNul secondNotNul
    obtain ⟨next, -, handled, after, -, -⟩ := box.commits sound small focus target isShown typing
    obtain ⟨result, last, -, handled', isLast, data, -⟩ :=
      commits.committed han (shown.trans isShown)
    cases handled.symm.trans handled'
    cases after.symm.trans isLast
    exact typed_iff.mp data
  · intro stays
    refine ⟨fun nothing => box.refuses small (shown.symm.trans nothing), fun han isShown => ?_⟩
    have found := shown.symm.trans isShown
    obtain ⟨nonneg, bound⟩ := box.page.index small
    obtain ⟨firstNotNul, secondNotNul⟩ := sound.noNul _ _ _ nonneg bound found
    obtain ⟨typed, typing, typed_iff⟩ := typed_together_iff located firstNotNul secondNotNul
    obtain ⟨next, second, handled, after, others, data⟩ :=
      box.commits sound small focus target found typing
    exact ⟨next, typed, second, handled, after, typed_iff.mpr (stays han isShown), others, data⟩

end

end

/-! ## Tables in memory -/

/-- What a table has been given for a key are bytes of a string. -/
theorem candidate_noNul {calls : List (Row × Row)} (noNul : ∀ call ∈ calls, 0 ∉ call.2) {k : Row}
    {i : Nat} {han : UInt8 × UInt8} (isCandidate : candidate calls k i = some han) :
    han.1 ≠ 0 ∧ han.2 ≠ 0 := by
  rw [candidate] at isCandidate
  split at isCandidate
  · cases isCandidate
  obtain ⟨hans, stored, first, isFirst, second, isSecond, isCandidate⟩ :=
    bind₃_eq_some_iff.mp isCandidate
  cases isCandidate
  obtain ⟨call, isCall, rfl⟩ := map_eq_some_iff.mp stored
  have noNul := noNul call (mem_reverse.mp (mem_of_find?_eq_some isCall))
  exact ⟨fun nul => noNul (nul ▸ mem_of_getElem? isFirst),
    fun nul => noNul (nul ▸ mem_of_getElem? isSecond)⟩

section

variable {calls : List (Row × Row)} {trie : PinyinTrie} (represents : Represents trie calls)
  (letters : ∀ call ∈ calls, ∀ c ∈ call.1, isSmall c) (fits : (beginnings calls).card ≤ maxnode)

include represents letters fits

theorem getPinyinIthHan_int (s : Row) {i : Int} (nonneg : 0 ≤ i) (bound : i < 2 ^ 30) :
    ∃ k, LongestBeginning calls s k ∧
      getPinyinIthHan trie s i = some (k.length, candidate calls k i.toNat) := by
  have found := represents.getPinyinIthHan letters fits s (show i.toNat < 2 ^ 30 by omega)
  rwa [Int.toNat_of_nonneg nonneg] at found

theorem tableOf_sound (noNul : ∀ call ∈ calls, 0 ∉ call.2) : Sound (tableOf trie) where
  deep_le := by
    intro row
    obtain ⟨k, isLongest, found⟩ :=
      getPinyinIthHan_int represents letters fits row (Int.le_refl 0) (by decide)
    simp only [tableOf, found]
    exact isLongest.isPrefix.length_le
  noNul := by
    intro row i han nonneg bound isHan
    obtain ⟨k, -, found⟩ := getPinyinIthHan_int represents letters fits row nonneg bound
    simp only [tableOf, found] at isHan
    exact candidate_noNul noNul isHan
  nothing := by
    intro i nonneg bound
    rfl

end

theorem makePinyinInput_box {table : PinyinTable} (sound : Sound table) {unset : Unset}
    {pinyin : PinyinInput} (made : makePinyinInput unset = some pinyin) :
    Box table pinyin [] := by
  cases made
  refine ⟨Letters.nil, ?_, rfl, .zero⟩
  rw [hanRow_nil sound .zero (by decide)]
  rfl

/-- For every table, and after every sequence of keys between which anything around
the box may change, as long as no number leaves the range of an `int`: the box has two
rows, letters and the candidates for them; the lookups stay inside the table; and a
digit commits what the second row shows, or is refused if it shows nothing, exactly if
the cursor of the target does not jump over a byte between the two bytes. -/
theorem box_commits_shown_iff {calls : List (Row × Row)} {trie : PinyinTrie}
    (small : ∀ call ∈ calls, ∀ c ∈ call.1, isSmall c)
    (noNul : ∀ call ∈ calls, 0 ∉ call.2) (fits : (beginnings calls).card ≤ maxnode)
    (made : handleAll PinyinTrie.start calls = some trie) {start manager : BufferManager}
    {unset : Unset} (fresh : makePinyinInput unset = some start.pinyin)
    (reached : Reached (boxStep (tableOf trie)) KeepsBox start manager) :
    ∃ row, Box (tableOf trie) manager.pinyin row ∧
      (∀ i : Nat, i < 5 →
        (getPinyinIthHan trie row (manager.pinyin.page * itemEveryPage + i)).isSome) ∧
      ∀ i < 5, ∀ ref text above left right below, manager.cursorFocus = some ref →
        manager.textOf ref = some text → Located text above left right below →
          (CommitsShown (tableOf trie) manager ref above left right below row
              (hanRow (tableOf trie) row manager.pinyin.page 5 0) i ↔
            ∀ han, shownBehind (UInt8.ofNat (49 + i))
                (hanRow (tableOf trie) row manager.pinyin.page 5 0) = some han →
              insideHan (left ++ [han.1] ++ right) (left ++ [han.1]).length = false ∨
                right.head? = some han.2) := by
  obtain ⟨trie', made', represents⟩ := handleAll_represents small fits
  obtain rfl : trie' = trie := some.inj (made'.symm.trans made)
  have sound := tableOf_sound represents small fits noNul
  obtain ⟨row, box⟩ := reached.invariant (fun _ _ _ => boxStep_keeps sound)
    ⟨[], makePinyinInput_box sound fresh⟩
  refine ⟨row, box, fun i small' => ?_, fun i small' ref text above left right below focus target
    located => box.commit_iff sound small' focus target located⟩
  obtain ⟨nonneg, bound⟩ := box.page.index small'
  obtain ⟨k, -, found⟩ := getPinyinIthHan_int represents small fits row nonneg bound
  rw [found]
  rfl

/-- A table with a character for `a`. -/
def oneEntry : PinyinTrie :=
  (handleAll PinyinTrie.start [([97], [176, 162])]).get (by decide)

/-- A window on the row of a Han character, with the cursor in a column. -/
def onHan (cursorCol : Int) : BufferManager :=
  { clicked with buffers := clicked.buffers.map fun buffer => { buffer with
      edit := { buffer.edit with text := { lineEditSetStr [176, 161] with cursorCol } } } }

/-- The letter `a` has been typed into the box. -/
def onHanTyped (cursorCol : Int) : BufferManager :=
  ((boxStep (tableOf oneEntry) (onHan cursorCol) (.key 97)).getD (onHan cursorCol))

theorem box_commits_shown_behind_han :
    (onHanTyped 2).pinyin.edit.text.data = [[97], [49, 46, 176, 162]] ∧
      CommitsShown (tableOf oneEntry) (onHanTyped 2) (.file 0) [] [176, 161] [] [] [97]
        [49, 46, 176, 162] 0 := by
  have data : (onHanTyped 2).pinyin.edit.text.data = [[97], [49, 46, 176, 162]] := by decide
  have typed : (boxStep (tableOf oneEntry) (onHan 2) (.key 97)).isSome := by decide
  have stepped : boxStep (tableOf oneEntry) (onHan 2) (.key 97) = some (onHanTyped 2) := by
    rw [onHanTyped, ← some_get typed, getD_some]
  have empty : (onHan 2).pinyin.edit.text.line? 0 = some [] := by decide
  have keeps : KeepsBox (onHan 2) (.key 97) := by
    refine ⟨by decide, fun row isRow => ?_⟩
    cases empty.symm.trans isRow
    decide
  have reached : Reached (boxStep (tableOf oneEntry)) KeepsBox (onHan 2) (onHanTyped 2) :=
    .step .start keeps stepped
  obtain ⟨row, box, -, commits⟩ := @box_commits_shown_iff [([97], [176, 162])] oneEntry
    (by simp [isSmall]) (by decide) (by decide) (some_get _).symm (onHan 2) (onHanTyped 2)
    ⟨0, 0, 0⟩ (by decide) reached
  have rows := box.data
  rw [data, cons.injEq, cons.injEq] at rows
  refine ⟨data, ?_⟩
  rw [rows.1, rows.2.1]
  refine (commits 0 (by decide) (.file 0) { lineEditSetStr [176, 161] with cursorCol := 2 } [] _
    [] [] (by decide) (by decide) ⟨rfl, rfl, rfl⟩).mpr fun han _ => .inl ?_
  exact insideHan_append_nil _

/-- In front of a Han character the character committed is torn apart. -/
theorem box_commit_torn :
    makePinyinInput ⟨0, 0, 0⟩ = some (onHan 0).pinyin ∧
      (onHanTyped 0).pinyin.edit.text.data = [[97], [49, 46, 176, 162]] ∧
        (handleKeyboardPinyinInput (tableOf oneEntry) (onHanTyped 0) 49).map
            (fun next => next.bind fun next => (next.textOf (.file 0)).map Textframe.data) =
          some (some [[176, 176, 162, 161]]) := by
  refine ⟨by decide, by decide, by decide⟩

end XEditor.Gui
