import XEditor.Edit.TextEdit
import XEditor.Text.Search

/-!
# What can happen to a text edit

Besides its own mouse and keyboard handlers a `TextEdit` is changed by the
search frame, which moves the cursor to a hit and selects it, by the pinyin
input, which types a string into it, and by `LineEdit_set_str`.  A session is a
text edit with the clipboard.
-/

namespace XEditor.Edit

open Option Text

/-- What `case ENTER` of `handle_keyboard_SearchFrame` does to the edit that is
searched, and whether the pattern was found. -/
def searchSelect (edit : TextEdit) (pattern : Row) : Option (TextEdit × Bool) := do
  let (result, text) ← search edit.text pattern
  if result ≥ 0 then
    some ({ edit with
      text := text
      point2Col := text.cursorCol - 1
      point2Row := text.cursorRow
      point1Col := text.cursorCol - pattern.length
      point1Row := text.cursorRow
      selecting := 1 }, true)
  else some ({ edit with text := text }, false)

theorem searchSelect_area {edit next : TextEdit} {pattern : Row} {found : Bool}
    (searched : searchSelect edit pattern = some (next, found)) : next.area = edit.area := by
  obtain ⟨⟨result, text⟩, -, searched⟩ := bind_eq_some_iff.mp searched
  simp only at searched
  split at searched
  · rw [some.injEq, Prod.mk.injEq] at searched
    rw [← searched.1]
  · rw [some.injEq, Prod.mk.injEq] at searched
    rw [← searched.1]

/-- The loop by which `handle_keyboard_pinyinInput` types a string. -/
def typeBytes : Textframe → Row → Option Textframe
  | text, [] => some text
  | text, ch :: rest => (typeByte text ch).bind fun text => typeBytes text rest

/-- A text edit and the clipboard it shares with the others. -/
structure Session where
  edit : TextEdit
  clipBoard : Option Textframe
  deriving DecidableEq, Repr

/-- The events of a session.  `copied` is a copy made in another text edit, and
`layout` a scroll or zoom of the window around this one. -/
inductive Event where
  | key (c : Int)
  | mouse (x y : Int) (mouseOpt : MouseOpt)
  | search (pattern : Row)
  | commit (str : Row)
  | setStr (str : Row)
  | copied (clip : Textframe)
  | layout (area : Area) (scale : Int)
  deriving DecidableEq, Repr

/-- The reaction to an event. -/
def Session.step (session : Session) : Event → Option Session
  | .key c =>
    (handleKeyboardTextEdit session.edit session.clipBoard c).map fun result =>
      ⟨result.1, result.2⟩
  | .mouse x y mouseOpt =>
    (handleMouseTextEdit session.edit x y mouseOpt).map fun edit =>
      { session with edit := edit }
  | .search pattern =>
    (searchSelect session.edit pattern).map fun result => { session with edit := result.1 }
  | .commit str =>
    (typeBytes session.edit.text str).map fun text =>
      { session with edit := { session.edit with text := text } }
  | .setStr str =>
    some { session with edit := { session.edit with text := lineEditSetStr str } }
  | .copied clip => some { session with clipBoard := some clip }
  | .layout area scale =>
    some { session with edit := { session.edit with area := area, scale := scale } }

end XEditor.Edit
