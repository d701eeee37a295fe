import XEditor.Gui.Component

/-!
# The pinyin input

The input box for pinyin, which takes letters and types the characters chosen
into the edit that has the cursor focus.
-/

namespace XEditor.Gui

open Edit Text

/-- The answers of `get_pinyin_ith_han`: the two bytes of the candidate with a
number, if there is one, and the number of letters it stands for. -/
structure PinyinTable where
  han : Row → Int → Option (UInt8 × UInt8)
  deep : Row → Nat

/-- Source `ITEM_EVERY_PAGE`. -/
def itemEveryPage : Int := 5

/-- The loop of `pinyin_updateHanList`. -/
def updateHanLoop (table : PinyinTable) (page : Int) : (left i : Nat) → (text : Textframe) →
    Option Textframe
  | 0, _, text => some text
  | left + 1, i, text => do
    let row ← text.line? 0
    match table.han row (page * itemEveryPage + i) with
    | none => updateHanLoop table page left (i + 1) text
    | some (first, second) => do
      let text ← typeBytes (moveToPos text 1 (-1)) [UInt8.ofNat (49 + i), 46, first, second]
      updateHanLoop table page left (i + 1) (moveToPos text 0 (-1))

/-- Source `pinyin_updateHanList`. -/
def pinyinUpdateHanList (table : PinyinTable) (pinyin : PinyinInput) : Option PinyinInput := do
  let text ← updateHanLoop table pinyin.page itemEveryPage.toNat 0
    (clearCurLine (moveToPos pinyin.edit.text 1 (-1)))
  some { pinyin with edit := { pinyin.edit with text := text } }

/-- Whether a key is a small letter. -/
def isLetter (c : Int) : Bool :=
  decide (97 ≤ c ∧ c ≤ 122)

def comma : Int := 44

def period : Int := 46

def apostrophe : Int := 39

/-- The keys of `handle_keyboard_pinyinInput` that change the box: a letter, an
apostrophe, `BACKSPACE` and the two keys that turn the page. -/
def pinyinEditKey (pinyin : PinyinInput) (clipBoard : Option Textframe) (c : Int) :
    Option (PinyinInput × Option Textframe) :=
  if c = comma then
    some ({ pinyin with page := if pinyin.page > 0 then pinyin.page - 1 else pinyin.page },
      clipBoard)
  else if c = period then some ({ pinyin with page := pinyin.page + 1 }, clipBoard)
  else do
    let edit := { pinyin.edit with text := moveToPos pinyin.edit.text 0 (-1) }
    let (edit, clipBoard) ← handleKeyboardTextEdit edit clipBoard c
    some ({ pinyin with page := 0, edit := edit }, clipBoard)

/-- What a key commits, with the number of letters it takes from the box: the
letters themselves with `ENTER`, a candidate with its digit. -/
def committed (table : PinyinTable) (pinyin : PinyinInput) (row : Row) (c : Int) :
    Option (Row × Nat) :=
  if c = enter then some (row, row.length)
  else
    (table.han row (c - 48 - 1 + pinyin.page * itemEveryPage)).map fun han =>
      ([han.1, han.2].takeWhile (· ≠ 0), table.deep row)

/-- The box after a commit: without the letters taken and the apostrophes behind
them. -/
def shortenBox (table : PinyinTable) (pinyin : PinyinInput) (row : Row) (count : Nat) :
    Option PinyinInput :=
  if count > row.length then none
  else do
    let rest := (row.drop count).dropWhile (· = UInt8.ofNat apostrophe.toNat)
    let text ← newLineToEditor (moveToPos (lineEditSetStr rest) 0 (-1))
    pinyinUpdateHanList table
      { pinyin with edit := { pinyin.edit with text := moveToPos text 0 (-1) } }

/-- Source `handle_keyboard_pinyinInput`.  The inner `none` is the return value
-1, with which nothing has changed. -/
def handleKeyboardPinyinInput (table : PinyinTable) (manager : BufferManager) (c : Int) :
    Option (Option BufferManager) := do
  let row ← manager.pinyin.edit.text.line? 0
  if row = [] ∧ isLetter c = false then some none
  else if isLetter c = true ∨ c = backspace ∨ c = comma ∨ c = period ∨ c = apostrophe then do
    let (pinyin, clipBoard) ← pinyinEditKey manager.pinyin manager.clipBoard c
    let pinyin ← pinyinUpdateHanList table pinyin
    some (some { manager with pinyin := pinyin, clipBoard := clipBoard })
  else if c = enter ∨ 49 ≤ c ∧ c ≤ 48 + itemEveryPage then
    match manager.cursorFocus, committed table manager.pinyin row c with
    | some ref, some (str, count) => do
      let manager ← manager.modifyText ref fun text => typeBytes text str
      let pinyin ← shortenBox table manager.pinyin row count
      some (some { manager with pinyin := pinyin })
    | _, _ => some none
  else some none

end XEditor.Gui
