import XEditor.Gui.Component
import XEditor.Text.Characters

/-!
# The two editors on one row

`handle_keyboard_LineEdit` and `handle_keyboard_TextEdit` are separate copies of
the same logic.  On a text of one row, with nothing selected, they differ in one
case: at the start of the row `BACKSPACE` removes the first character in the
first of them and nothing in the second.
-/

namespace XEditor.Gui

open List Option Edit Run Text

/-- The keys that both editors know on one row: the printable ones, the arrows to
both sides and `BACKSPACE`. -/
def IsLineKey (c : Int) : Prop :=
  c = leftArrow ∨ c = backspace ∨ c = rightArrow ∨ 32 ≤ c ∧ c ≤ 126

instance isLineKey_decidable (c : Int) : Decidable (IsLineKey c) :=
  inferInstanceAs (Decidable (_ ∨ _))

/-- `handle_keyboard_TextEdit` with the clipboard as part of the state. -/
def textEditStep (state : TextEdit × Option Textframe) (c : Int) :
    Option (TextEdit × Option Textframe) :=
  handleKeyboardTextEdit state.1 state.2 c

/-- What `handle_keyboard_TextEdit` does to its text when nothing is selected. -/
def textEditKey (text : Textframe) (c : Int) : Option Textframe :=
  if c = leftArrow then moveToPreviousChar text
  else if c = backspace then backspaceText text
  else if c = rightArrow then moveToNextChar text
  else typeByte text (UInt8.ofNat c.toNat)

/-! ## Only the texts matter -/

variable {state : TextEdit × Option Textframe}

section

/-- A key that puts another text into the edit and leaves nothing selected. -/
theorem map_key_text {key : Option TextEdit} {text : Option Textframe}
    {after : Textframe → TextEdit} (pressed : key = text.bind fun text => some (after text))
    (text_eq : ∀ text, (after text).text = text)
    (noSelection : ∀ text, (after text).point2Col = -1) (clipBoard : Option Textframe) :
    (key.map (·, clipBoard)).map (·.1.text) = text ∧
      ∀ next, key.map (·, clipBoard) = some next → next.1.point2Col = -1 := by
  subst pressed
  cases text with
  | none => exact ⟨rfl, by simp⟩
  | some text =>
    refine ⟨congrArg some (text_eq text), ?_⟩
    rintro _ ⟨⟩
    exact noSelection text

/-- Without a selection the text that a key leaves depends on the text only, and
nothing is selected afterwards. -/
theorem textEditStep_text {c : Int} (isKey : IsLineKey c) (noSelection : state.1.point2Col = -1) :
    (textEditStep state c).map (·.1.text) = textEditKey state.1.text c ∧
      ∀ next, textEditStep state c = some next → next.1.point2Col = -1 := by
  obtain ⟨edit, clipBoard⟩ := state
  have left : leftArrowKey edit = (moveToPreviousChar edit.text).bind fun text =>
      some (clearPoint2 { edit with text := text }) := if_pos noSelection
  have back : backspaceKey edit = (backspaceText edit.text).bind fun text =>
      some (clearPoint2 { edit with text := text }) := if_pos noSelection
  have right : rightArrowKey edit = (moveToNextChar edit.text).bind fun text =>
      some { edit with text := text } := by
    rw [rightArrowKey, if_neg (not_not_intro noSelection)]
    rfl
  have printable : printableKey edit c = (typeByte edit.text (UInt8.ofNat c.toNat)).bind
      fun text => some { edit with text := text } := by
    rw [printableKey, replaceUnordered, if_neg (not_not_intro noSelection)]
    rfl
  rcases isKey with rfl | rfl | rfl | ⟨low, high⟩
  · exact map_key_text left (fun _ => rfl) (fun _ => rfl) clipBoard
  · exact map_key_text back (fun _ => rfl) (fun _ => rfl) clipBoard
  · exact map_key_text right (fun _ => rfl) (fun _ => noSelection) clipBoard
  have notSpecial : c ≠ leftArrow ∧ c ≠ backspace ∧ c ≠ rightArrow := by
    rw [leftArrow, backspace, rightArrow]
    omega
  rw [textEditStep, handleKeyboardTextEdit_printable edit clipBoard low high, textEditKey,
    if_neg notSpecial.1, if_neg notSpecial.2.1, if_neg notSpecial.2.2]
  exact map_key_text printable (fun _ => rfl) (fun _ => noSelection) clipBoard

/-- The texts of a run of the editor with several rows. -/
theorem run_textEditStep {keys : List Int} (areKeys : ∀ c ∈ keys, IsLineKey c)
    (noSelection : state.1.point2Col = -1) :
    (run textEditStep state keys).map (·.1.text) = run textEditKey state.1.text keys := by
  refine @run_map _ _ textEditStep _ textEditKey (·.1.text) (·.1.point2Col = -1) IsLineKey ?_ ?_
    state noSelection keys areKeys
  · intro state c noSelection isKey
    exact (textEditStep_text isKey noSelection).1
  · intro state c next noSelection isKey stepped
    exact (textEditStep_text isKey noSelection).2 next stepped

/-- The texts of a run of the editor with one row. -/
theorem run_handleKeyboardLineEdit (edit : LineEdit) (keys : List Int) :
    (run handleKeyboardLineEdit edit keys).map (·.text) = run lineEditKey edit.text keys := by
  refine @run_map _ _ handleKeyboardLineEdit _ lineEditKey (·.text) (fun _ => True)
    (fun _ => True) ?_ (fun _ _ _ _ _ _ => trivial) edit trivial keys (fun _ _ => trivial)
  intro edit c _ _
  rw [handleKeyboardLineEdit, Option.map_map]
  exact map_id_apply

end

/-! ## One key -/

/-- A text of one row, with the cursor in it. -/
def OneRow (text : Textframe) : Prop :=
  ∃ left right, Located text [] left right []

theorem oneRow_of_valid {text : Textframe} (valid : CursorValid text)
    (single : text.data.length = 1) : OneRow text := by
  obtain ⟨above, left, right, below, located⟩ := valid.exists_located
  rw [located.data_eq, length_append, length_cons] at single
  obtain rfl : above = [] := length_eq_zero_iff.mp (by omega)
  obtain rfl : below = [] := length_eq_zero_iff.mp (by omega)
  exact ⟨left, right, located⟩

section

variable {text : Textframe} {c : Int}

theorem OneRow.cursorValid (oneRow : OneRow text) : CursorValid text := by
  obtain ⟨left, right, located⟩ := oneRow
  exact located.cursorValid

theorem OneRow.length_eq (oneRow : OneRow text) : text.data.length = 1 := by
  obtain ⟨left, right, located⟩ := oneRow
  rw [located.data_eq]
  rfl

/-- The case in which the two editors differ: `BACKSPACE` at the start of a row
that is not empty. -/
def Differs (text : Textframe) (c : Int) : Prop :=
  c = backspace ∧ text.cursorCol = 0 ∧ text.data ≠ [[]]

theorem OneRow.moveToPreviousChar (oneRow : OneRow text) :
    ∃ next, Text.moveToPreviousChar text = some next ∧ OneRow next ∧ Placed next := by
  obtain ⟨next, moved, data_eq, placed⟩ := moveToPreviousChar_placed oneRow.cursorValid
  exact ⟨next, moved, oneRow_of_valid placed.cursorValid (data_eq ▸ oneRow.length_eq), placed⟩

theorem OneRow.moveToNextChar (oneRow : OneRow text) :
    ∃ next, Text.moveToNextChar text = some next ∧ OneRow next := by
  obtain ⟨next, moved, data_eq, placed⟩ := moveToNextChar_placed oneRow.cursorValid
  exact ⟨next, moved, oneRow_of_valid placed.cursorValid (data_eq ▸ oneRow.length_eq)⟩

theorem OneRow.backspaceToStr (oneRow : OneRow text) (placed : Placed text) :
    ∃ next, Text.backspaceToStr text = some next ∧ OneRow next := by
  have single := oneRow.length_eq
  obtain ⟨above, left, right, below, located, boundary⟩ := placed
  obtain ⟨next, erased, nextLocated⟩ := located.backspaceToStr boundary
  refine ⟨next, erased, oneRow_of_valid nextLocated.cursorValid ?_⟩
  rw [located.data_eq, length_append] at single
  rw [nextLocated.data_eq, length_append]
  exact single

theorem OneRow.typeByte (oneRow : OneRow text) (low : 32 ≤ c) (high : c ≤ 126) :
    ∃ next, Edit.typeByte text (UInt8.ofNat c.toNat) = some next ∧ OneRow next := by
  obtain ⟨left, right, located⟩ := oneRow
  have notHan : isHan (UInt8.ofNat c.toNat) = false := by
    rw [isHan, decide_eq_false_iff_not]
    change ¬ 160 ≤ c.toNat % 256
    omega
  obtain ⟨next, typed, nextLocated⟩ := located.typed notHan (ofNat_ne_zero low high)
  exact ⟨next, typed, _, _, nextLocated⟩

/-- At the start of the row `BACKSPACE` leaves the text with several rows alone,
and takes the character behind the cursor from the other one. -/
theorem backspace_atStart {right : Row} (located : Located text [] [] right []) :
    textEditKey text backspace = some text ∧
      ∃ shorter, lineEditKey text backspace = some shorter ∧
        Located shorter [] [] (right.drop (if right.head?.any isHan then 2 else 1)) [] := by
  have atStart : ¬ text.cursorCol > 0 := by
    rw [located.col_eq, length_nil]
    omega
  constructor
  · change backspaceText text = some text
    rw [backspaceText, if_neg atStart, located.moveCurLineToPrevLine_first]
  obtain ⟨shorter, erased, shorterLocated⟩ := located.backspaceToStr (insideHan_zero _)
  refine ⟨shorter, ?_, shorterLocated⟩
  change (Text.moveToPreviousChar text).bind Text.backspaceToStr = some shorter
  rw [located.moveToPreviousChar_first, bind_some, erased]

/-- In an empty row there is nothing to take. -/
theorem backspace_empty (located : Located text [] [] [] []) :
    lineEditKey text backspace = some text := by
  obtain ⟨data, row, col, capacity⟩ := text
  obtain rfl : data = [[]] := located.data_eq
  obtain rfl : row = 0 := located.row_eq
  obtain rfl : col = 0 := located.col_eq
  rfl

theorem OneRow.located_atStart (oneRow : OneRow text) (atStart : text.cursorCol = 0) :
    ∃ right, Located text [] [] right [] := by
  obtain ⟨left, right, located⟩ := oneRow
  have empty : (0 : Int) = left.length := atStart.symm.trans located.col_eq
  obtain rfl : left = [] := length_eq_zero_iff.mp (by omega)
  exact ⟨right, located⟩

/-- Otherwise a key leaves the same text in both, which has one row again. -/
theorem keys_agree (oneRow : OneRow text) (isKey : IsLineKey c) (same : ¬ Differs text c) :
    ∃ next, lineEditKey text c = some next ∧ textEditKey text c = some next ∧ OneRow next := by
  rcases isKey with rfl | rfl | rfl | ⟨low, high⟩
  · obtain ⟨next, moved, nextOneRow, -⟩ := oneRow.moveToPreviousChar
    exact ⟨next, moved, moved, nextOneRow⟩
  · by_cases atStart : text.cursorCol = 0
    · obtain ⟨right, located⟩ := oneRow.located_atStart atStart
      have empty : text.data = [[]] := by
        by_contra notEmpty
        exact same ⟨rfl, atStart, notEmpty⟩
      rw [located.data_eq] at empty
      obtain rfl : right = [] := head_eq_of_cons_eq empty
      exact ⟨text, backspace_empty located, (backspace_atStart located).1, oneRow⟩
    · obtain ⟨moved, moves, movedOneRow, placed⟩ := oneRow.moveToPreviousChar
      obtain ⟨next, erased, nextOneRow⟩ := movedOneRow.backspaceToStr placed
      have both : (Text.moveToPreviousChar text).bind Text.backspaceToStr = some next := by
        rw [moves, bind_some, erased]
      refine ⟨next, both, ?_, nextOneRow⟩
      have nonneg : 0 ≤ text.cursorCol := by
        obtain ⟨left, right, located⟩ := oneRow
        rw [located.col_eq]
        exact Int.natCast_nonneg _
      change backspaceText text = some next
      rw [backspaceText, if_pos (by omega)]
      exact both
  · obtain ⟨next, moved, nextOneRow⟩ := oneRow.moveToNextChar
    exact ⟨next, moved, moved, nextOneRow⟩
  obtain ⟨next, typed, nextOneRow⟩ := oneRow.typeByte low high
  have notSpecial : c ≠ leftArrow ∧ c ≠ backspace ∧ c ≠ rightArrow := by
    rw [leftArrow, backspace, rightArrow]
    omega
  refine ⟨next, ?_, ?_, nextOneRow⟩
  · rw [lineEditKey, if_neg notSpecial.1, if_neg notSpecial.2.1, if_neg notSpecial.2.2,
      if_pos ⟨low, high⟩]
    exact typed
  · rw [textEditKey, if_neg notSpecial.1, if_neg notSpecial.2.1, if_neg notSpecial.2.2]
    exact typed

/-- In that case the two texts are different. -/
theorem keys_differ (oneRow : OneRow text) (differs : Differs text c) :
    ∃ shorter, lineEditKey text c = some shorter ∧ textEditKey text c = some text ∧
      shorter.data ≠ text.data := by
  obtain ⟨rfl, atStart, notEmpty⟩ := differs
  obtain ⟨right, located⟩ := oneRow.located_atStart atStart
  obtain ⟨stays, shorter, erased, shorterLocated⟩ := backspace_atStart located
  refine ⟨shorter, erased, stays, ?_⟩
  rw [shorterLocated.data_eq, located.data_eq]
  intro same
  have lengths := congrArg List.length (head_eq_of_cons_eq same)
  rw [nil_append, nil_append, length_drop] at lengths
  have empty : right = [] := length_eq_zero_iff.mp (by split at lengths <;> omega)
  exact notEmpty (by rw [located.data_eq, empty]; rfl)

end

/-! ## Sequences of keys -/

/-- Both editors have returned, with the same rows and the same cursor. -/
def SameText (line : Option Textframe) (several : Option Textframe) : Prop :=
  ∃ first second, line = some first ∧ several = some second ∧ first.data = second.data ∧
    first.cursorRow = second.cursorRow ∧ first.cursorCol = second.cursorCol

/-- Every key of a sequence meets a condition on the text it is pressed in. -/
def AlongKeys (meets : Textframe → Int → Prop) (text : Textframe) (keys : List Int) : Prop :=
  ∀ before c after, keys = before ++ c :: after →
    ∀ reached, run textEditKey text before = some reached → meets reached c

theorem alongKeys_cons {meets : Textframe → Int → Prop} {text next : Textframe} {c : Int}
    {keys : List Int} (pressed : textEditKey text c = some next) :
    AlongKeys meets text (c :: keys) ↔ meets text c ∧ AlongKeys meets next keys := by
  constructor
  · intro along
    refine ⟨along [] c keys rfl text rfl, ?_⟩
    rintro before key after rfl reached ran
    apply along (c :: before) key after rfl
    rw [run, pressed, bind_some, ran]
  · rintro ⟨first, later⟩ before key after keys_eq reached ran
    cases before with
    | nil =>
      cases keys_eq
      cases ran
      exact first
    | cons _ before =>
      cases keys_eq
      rw [run, pressed] at ran
      exact later before key after rfl reached ran

theorem sameText_some (text : Textframe) : SameText (some text) (some text) :=
  ⟨text, text, rfl, rfl, rfl, rfl, rfl⟩

/-- The texts agree after every key exactly when no key is pressed where the
editors differ. -/
theorem sameText_run_iff {text : Textframe} (oneRow : OneRow text) {keys : List Int}
    (areKeys : ∀ c ∈ keys, IsLineKey c) :
    (∀ count, SameText (run lineEditKey text (keys.take count))
      (run textEditKey text (keys.take count))) ↔
        AlongKeys (fun reached c => ¬ Differs reached c) text keys := by
  induction keys generalizing text with
  | nil =>
    refine iff_of_true ?_ ?_
    · intro count
      rw [take_nil]
      exact sameText_some text
    · intro before c after keys_eq
      simp at keys_eq
  | cons c keys ih =>
    by_cases differs : Differs text c
    · refine iff_of_false ?_ ?_
      · intro agree
        obtain ⟨shorter, erased, stays, different⟩ := keys_differ oneRow differs
        obtain ⟨first, second, line, several, same, -⟩ := agree 1
        rw [take_succ_cons, take_zero, run, erased] at line
        rw [take_succ_cons, take_zero, run, stays] at several
        cases line
        cases several
        exact different same
      · intro along
        exact along [] c keys rfl text rfl differs
    · obtain ⟨next, line, several, nextOneRow⟩ :=
        keys_agree oneRow (areKeys c mem_cons_self) differs
      have later := ih nextOneRow fun key isKey => areKeys key (mem_cons_of_mem c isKey)
      rw [alongKeys_cons several, and_iff_right differs, ← later]
      constructor
      · intro agree count
        have agreeNext := agree (count + 1)
        rw [take_succ_cons, run, run, line, several] at agreeNext
        exact agreeNext
      · intro agree count
        cases count with
        | zero => exact sameText_some text
        | succ count =>
          rw [take_succ_cons, run, run, line, several]
          exact agree count

/-- On one row, with nothing selected, the two editors show the same row and the
same cursor after every key of a sequence exactly when `BACKSPACE` is never
pressed at the start of a row that is not empty. -/
theorem editors_agree_iff {text : Textframe} (single : text.data.length = 1)
    (valid : CursorValid text) {line : LineEdit} (lineText : line.text = text) {edit : TextEdit}
    (editText : edit.text = text) (noSelection : edit.point2Col = -1)
    (clipBoard : Option Textframe) {keys : List Int} (areKeys : ∀ c ∈ keys, IsLineKey c) :
    (∀ count, SameText ((run handleKeyboardLineEdit line (keys.take count)).map (·.text))
      ((run textEditStep (edit, clipBoard) (keys.take count)).map (·.1.text))) ↔
        ∀ before c after, keys = before ++ c :: after →
          ∀ reached, run textEditStep (edit, clipBoard) before = some reached →
            ¬ Differs reached.1.text c := by
  have texts {part : List Int} (arePart : ∀ c ∈ part, IsLineKey c) :
      (run textEditStep (edit, clipBoard) part).map (·.1.text) = run textEditKey text part := by
    rw [← editText]
    exact run_textEditStep arePart noSelection
  have along : AlongKeys (fun reached c => ¬ Differs reached c) text keys ↔
      ∀ before c after, keys = before ++ c :: after →
        ∀ reached, run textEditStep (edit, clipBoard) before = some reached →
          ¬ Differs reached.1.text c := by
    refine forall_congr' fun before => forall_congr' fun c => forall_congr' fun after =>
      forall_congr' fun keys_eq => ?_
    have arePart : ∀ c ∈ before, IsLineKey c := by
      intro c isKey
      exact areKeys c (keys_eq ▸ mem_append_left _ isKey)
    rw [← texts arePart]
    constructor
    · intro meets reached ran
      exact meets _ (congrArg (Option.map _) ran)
    · intro meets reached ran
      obtain ⟨state, stateRan, rfl⟩ := map_eq_some_iff.mp ran
      exact meets state stateRan
  rw [← along, ← sameText_run_iff (oneRow_of_valid valid single) areKeys]
  refine forall_congr' fun count => ?_
  rw [run_handleKeyboardLineEdit, lineText, texts fun c isKey => areKeys c (mem_of_mem_take isKey)]

/-- The two editors on the row `a`, with the cursor at its start. -/
def lineOnA : LineEdit :=
  { makeLineEdit with text := lineEditSetStr [97] }

def editOnA : TextEdit :=
  { makeTextEdit ⟨0, 0, 0⟩ none with text := lineEditSetStr [97] }

/-- They agree as long as the cursor is moved behind the letter first. -/
theorem editors_agree_onA :
    (run handleKeyboardLineEdit lineOnA [rightArrow, backspace]).map (·.text.data) = some [[]] ∧
      ∀ count, SameText
        ((run handleKeyboardLineEdit lineOnA ([rightArrow, backspace].take count)).map (·.text))
        ((run textEditStep (editOnA, none) ([rightArrow, backspace].take count)).map
          (·.1.text)) := by
  have located : Located (lineEditSetStr [97]) [] [] [97] [] := ⟨rfl, rfl, rfl⟩
  refine ⟨by decide, ?_⟩
  apply (editors_agree_iff rfl located.cursorValid rfl rfl rfl none (by decide)).mpr
  rintro before c after keys_eq reached ran ⟨isBackspace, atStart, -⟩
  match before, keys_eq with
  | [], keys_eq =>
    cases keys_eq
    exact absurd isBackspace (by decide)
  | [_], keys_eq =>
    cases keys_eq
    have column : (run textEditStep (editOnA, none) [rightArrow]).map (·.1.text.cursorCol) =
        some 1 := by decide
    rw [ran, map_some, atStart] at column
    exact absurd column (by decide)
  | _ :: _ :: _, keys_eq => simp at keys_eq

/-- At the start of the row `BACKSPACE` removes the letter in one of them only. -/
theorem editors_differ_onA :
    (run handleKeyboardLineEdit lineOnA [backspace]).map (·.text.data) = some [[]] ∧
      (run textEditStep (editOnA, none) [backspace]).map (·.1.text.data) = some [[97]] := by
  decide

end XEditor.Gui
