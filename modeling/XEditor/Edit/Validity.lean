import XEditor.Edit.Maintained
import XEditor.Text.Insert
import XEditor.Text.Load

/-!
# The cursor is valid in every state of a session

A session starts with an empty text or with one that has been loaded.  Whatever
happens then, there is a row, the cursor is in one, and no further than its
end.  The only accesses outside the text are those of a copy.
-/

namespace XEditor.Edit

open Option Run Text

variable {text : Textframe} {session : Session}

theorem typeByte_valid (valid : CursorValid text) (ch : UInt8) :
    ∃ next, typeByte text ch = some next ∧ CursorValid next := by
  obtain ⟨stored, putc, storedValid⟩ := putcToStr_valid valid ch
  obtain ⟨next, moved, -, placed⟩ := moveToNextChar_placed storedValid
  exact ⟨next, by rw [typeByte, putc, bind_some, moved], placed.cursorValid⟩

theorem typeBytes_valid {str : Row} (valid : CursorValid text) :
    ∃ next, typeBytes text str = some next ∧ CursorValid next := by
  induction str generalizing text with
  | nil => exact ⟨text, rfl, valid⟩
  | cons ch rest ih =>
    obtain ⟨typed, called, typedValid⟩ := typeByte_valid valid ch
    obtain ⟨next, calledRest, nextValid⟩ := ih typedValid
    exact ⟨next, by rw [typeBytes, called, bind_some, calledRest], nextValid⟩

theorem backspaceText_valid (valid : CursorValid text) :
    ∃ next, backspaceText text = some next ∧ CursorValid next := by
  rw [backspaceText]
  split
  · obtain ⟨moved, called, -, placed⟩ := moveToPreviousChar_placed valid
    rw [called]
    exact backspaceToStr_valid placed.cursorValid
  · exact moveCurLineToPrevLine_valid valid

/-- The operations behind the keys keep the cursor valid, for clipboards with a
row. -/
theorem cursorValid_maintained :
    Maintained CursorValid (fun clip => clip.data ≠ []) (fun _ => True) where
  valid _ valid := valid
  placed _ _ _ _ placed := placed.cursorValid
  newLine _ valid := newLineToEditor_valid valid
  erase _ valid := backspaceText_valid valid
  printable _ _ valid _ _ := typeByte_valid valid _
  delete edit valid point2 _ := by
    rcases textframeDelete_cases valid.data_ne_nil point2 edit.point1Col edit.point2Col with
      called | ⟨startLine, endLine, -, -, -, -, called⟩
    · exact ⟨_, called, valid.data_ne_nil, fun _ _ placed => placed.cursorValid⟩
    · exact ⟨_, called, by simp [deleted], fun _ _ placed => placed.cursorValid⟩
  copy _ valid point2 ordered _ extracted :=
    textframeExtract_ne_nil valid.data_ne_nil (rows_le_of_ordered ordered) point2 extracted
  paste text inText valid nonempty := by
    obtain ⟨above, left, right, below, located⟩ := valid.exists_located
    obtain ⟨next, col, front, last, called, -, -, nextLocated⟩ := located.textframeInsert nonempty
    exact ⟨next, called, nextLocated.cursorValid⟩

/-! ## Sessions -/

/-- A session starts with the text of `make_TextEdit` or with a loaded text. -/
structure Started (session : Session) : Prop where
  edit : ∃ unset parent area text,
    session.edit = { makeTextEdit unset parent with area := area, text := text } ∧
      (text = (makeTextEdit unset parent).text ∨
        ∃ chunks : List (List UInt8), (∀ chunk ∈ chunks, chunk ≠ []) ∧
          textframeRead chunks = some text)
  clipBoard : ∀ clip ∈ session.clipBoard, clip.data ≠ []

/-- The mouse is used at coordinates that are not negative, a pattern is not
empty, and a clipboard has a row. -/
def Allowed (session : Session) : Event → Prop
  | .mouse x y _ =>
    0 ≤ (mousePosTransform session.edit.area x y).1 ∧
      0 ≤ (mousePosTransform session.edit.area x y).2
  | .search pattern => pattern ≠ []
  | .copied clip => clip.data ≠ []
  | .key _ | .commit _ | .setStr _ | .layout _ _ => True

/-- The event neither copies from the text nor divides by a font size of
zero. -/
def Defined (session : Session) : Event → Prop
  | .key c => c ≠ ctrlC ∧ c ≠ ctrlX
  | .mouse _ _ _ => fontWidth session.edit.scale ≠ 0 ∧ fontHeight session.edit.scale ≠ 0
  | .search _ | .commit _ | .setStr _ | .copied _ | .layout _ _ => True

/-- The invariant of a session. -/
abbrev SessionValid : Session → Prop :=
  Holds CursorValid fun clip => clip.data ≠ []

theorem Started.valid (started : Started session) : SessionValid session := by
  obtain ⟨unset, parent, area, text, edit_eq, made⟩ := started.edit
  refine ⟨?_, ?_, started.clipBoard⟩
  · rw [edit_eq]
    rcases made with rfl | ⟨chunks, nonempty, loaded⟩
    · have located : Located (lineEditSetStr []) [] [] [] [] := ⟨rfl, rfl, rfl⟩
      exact located.cursorValid
    obtain ⟨read, first, rest, called, located, -⟩ := textframeRead_eq nonempty
    rw [loaded] at called
    cases called
    exact located.cursorValid
  · rw [edit_eq]
    exact ⟨Int.le_refl _, fun selected => absurd rfl selected⟩

/-- Every event keeps the session valid. -/
theorem SessionValid.step {next : Session} {event : Event} (valid : SessionValid session)
    (allowed : Allowed session event) (stepped : session.step event = some next) :
    SessionValid next := by
  refine cursorValid_maintained.step valid ?_ stepped
  cases event with
  | key c => exact fun _ _ => trivial
  | mouse x y mouseOpt => exact allowed.2
  | search pattern =>
    refine ⟨allowed, ?_⟩
    intro i j row _ read fits
    obtain ⟨above, below, -, located⟩ := exists_located_of_read read fits
    exact located.cursorValid
  | commit str =>
    intro text called
    obtain ⟨typed, calledAgain, typedValid⟩ := typeBytes_valid valid.text
    rw [called] at calledAgain
    cases calledAgain
    exact typedValid
  | setStr str =>
    have located : Located (lineEditSetStr str) [] [] str [] := ⟨rfl, rfl, rfl⟩
    exact located.cursorValid
  | copied clip => exact allowed
  | layout area scale => exact trivial

/-- In a valid session an event that does not copy always returns. -/
theorem SessionValid.returns {event : Event} (valid : SessionValid session)
    (allowed : Allowed session event) (defined : Defined session event) :
    ∃ next, session.step event = some next := by
  cases event with
  | key c =>
    obtain ⟨next, called, -⟩ :=
      cursorValid_maintained.key_returns valid (fun _ _ => trivial) defined.1 defined.2
    exact ⟨next, called⟩
  | mouse x y mouseOpt =>
    simp only [Session.step, handleMouseTextEdit, if_neg (not_or.mpr defined)]
    split <;> exact ⟨_, rfl⟩
  | search pattern =>
    rcases searchSelect_cases valid.text allowed with
      missed | ⟨i, j, row, selected, -, -, -, hit, -⟩
    · exact ⟨_, by rw [Session.step, missed]; rfl⟩
    · exact ⟨_, by rw [Session.step, hit]; rfl⟩
  | commit str =>
    obtain ⟨typed, called, -⟩ : ∃ typed, typeBytes session.edit.text str = some typed ∧
        CursorValid typed := typeBytes_valid valid.text
    exact ⟨_, by rw [Session.step, called]; rfl⟩
  | setStr str => exact ⟨_, rfl⟩
  | copied clip => exact ⟨_, rfl⟩
  | layout area scale => exact ⟨_, rfl⟩

/-- In every state of a session the cursor is in the text, and an event that
does not copy returns. -/
theorem cursor_valid_throughout {start session : Session} (started : Started start)
    (reached : Reached Session.step Allowed start session) :
    CursorValid session.edit.text ∧
      ∀ event, Allowed session event → Defined session event →
        ∃ next, session.step event = some next := by
  have valid : SessionValid session :=
    reached.invariant (fun _ _ _ => SessionValid.step) started.valid
  exact ⟨valid.text, fun event => valid.returns⟩

/-- A session with an empty text. -/
def emptySession : Session where
  edit := makeTextEdit ⟨0, 0, 0⟩ none
  clipBoard := none

theorem emptySession_started : Started emptySession where
  edit := ⟨⟨0, 0, 0⟩, none, _, _, rfl, .inl rfl⟩
  clipBoard _ mem := absurd mem (by simp [emptySession])

theorem cursor_valid_after_letter :
    ∃ session, emptySession.step (.key 97) = some session ∧ session.edit.text.data = [[97]] ∧
      CursorValid session.edit.text := by
  have typed : (emptySession.step (.key 97)).map (fun session => session.edit.text.data) =
      some [[97]] := by
    decide
  obtain ⟨session, stepped, data_eq⟩ := map_eq_some_iff.mp typed
  have allowed : Allowed emptySession (.key 97) := trivial
  exact ⟨session, stepped, data_eq,
    (cursor_valid_throughout emptySession_started (.step .start allowed stepped)).1⟩

end XEditor.Edit
