import XEditor.Lib.Lines
import XEditor.Text.Cursor
import XEditor.Text.Save

/-!
# Loading a text

`textframe_read` types a file into an empty frame, byte after byte, with the
primitives that also serve the keyboard.  The cursor therefore stays at the end
of the last row, and the rows read so far, joined by line feeds, are the bytes
read so far with their line breaks made uniform.
-/

namespace XEditor.Text

open List Option Lines

/-- The body of the loading loop.  `lastc` is the byte before, if there was
one. -/
def readByte (text : Textframe) (lastc : Option UInt8) (c : UInt8) : Option Textframe :=
  if c = carriageReturn ∨ c = lineFeed then
    if c = carriageReturn ∨ c = lineFeed ∧ lastc ≠ some carriageReturn then newLineToEditor text
    else some text
  else (putcToStr text c).bind moveToNextChar

/-- The loop over the bytes of one `read`. -/
def readChunk : (text : Textframe) → (lastc : Option UInt8) → (chunk : List UInt8) →
    Option (Textframe × Option UInt8)
  | text, lastc, [] => some (text, lastc)
  | text, lastc, c :: rest => do
    let text ← readByte text lastc c
    readChunk text (some c) rest

/-- The loop over the calls of `read`, which ends when one returns nothing. -/
def readChunks : (text : Textframe) → (lastc : Option UInt8) → (chunks : List (List UInt8)) →
    Option Textframe
  | text, _, [] => some text
  | text, lastc, chunk :: chunks =>
    if chunk = [] then some text
    else do
      let (text, lastc) ← readChunk text lastc chunk
      readChunks text lastc chunks

/-- Source `textframe_read` on a file whose bytes `read` delivers in chunks. -/
def textframeRead (chunks : List (List UInt8)) : Option Textframe := do
  let text ← readChunks (lineEditSetStr []) none chunks
  let text := if text.maxrow > 0 then moveToPos text 0 0 else text
  some { text with maxrowCapacity := text.maxrow }

/-! ## The format -/

/-- A carriage return read on its own, a NUL, or any other byte. -/
def uniformByte (c : UInt8) : List UInt8 :=
  if c = carriageReturn then [lineFeed] else if c = 0 then [] else [c]

/-- The bytes with every CRLF and every lone CR replaced by a line feed and
every NUL dropped. -/
def uniform : List UInt8 → List UInt8
  | [] => []
  | [c] => uniformByte c
  | c :: next :: rest =>
    if c = carriageReturn ∧ next = lineFeed then lineFeed :: uniform rest
    else uniformByte c ++ uniform (next :: rest)

/-- What the loading loop makes of a byte behind `lastc`. -/
def readAs (lastc : Option UInt8) (c : UInt8) : List UInt8 :=
  if c = lineFeed ∧ lastc = some carriageReturn then [] else uniformByte c

/-- What the loading loop makes of the bytes behind `lastc`. -/
def readAll : (lastc : Option UInt8) → (bytes : List UInt8) → List UInt8
  | _, [] => []
  | lastc, c :: rest => readAs lastc c ++ readAll (some c) rest

variable {bytes : List UInt8} {text : Textframe}

/-- Looking back at the last byte is the same as looking ahead at the next. -/
theorem readAll_eq_uniform {lastc : Option UInt8}
    (apart : ¬ (bytes.head? = some lineFeed ∧ lastc = some carriageReturn)) :
    readAll lastc bytes = uniform bytes := by
  induction bytes using uniform.induct generalizing lastc with
  | case1 => rfl
  | case2 c =>
    rw [head?_cons, some.injEq] at apart
    rw [readAll, readAs, if_neg apart, uniform, readAll, append_nil]
  | case3 c next rest crlf ih =>
    obtain ⟨rfl, rfl⟩ := crlf
    have noBreak : ¬ (carriageReturn = lineFeed ∧ lastc = some carriageReturn) := by
      rintro ⟨impossible, -⟩
      exact absurd impossible (by decide)
    rw [uniform, if_pos ⟨rfl, rfl⟩, readAll, readAs, if_neg noBreak, readAll, readAs,
      if_pos ⟨rfl, rfl⟩, ih (by simp [lineFeed, carriageReturn])]
    rfl
  | case4 c next rest notCrlf ih =>
    rw [head?_cons, some.injEq] at apart
    rw [uniform, if_neg notCrlf, readAll, readAs, if_neg apart, ih]
    simpa [and_comm] using notCrlf

/-! ## The loading loop -/

/-- The cursor is at the end of the text, whose rows hold some bytes. -/
def Loaded (text : Textframe) (bytes : List UInt8) : Prop :=
  ∃ above line, Located text above line [] [] ∧
    (∀ row ∈ above ++ [line], lineFeed ∉ row) ∧ joinLines lineFeed (above ++ [line]) = bytes

section

variable (loaded : Loaded text bytes)

include loaded

theorem Loaded.newLine :
    ∃ next, newLineToEditor text = some next ∧ Loaded next (bytes ++ [lineFeed]) := by
  obtain ⟨above, line, located, plain, rfl⟩ := loaded
  obtain ⟨next, called, nextLocated⟩ := located.newLineToEditor (insideHan_append_nil _)
  refine ⟨next, called, above ++ [line], [], nextLocated, ?_, ?_⟩
  · intro row mem
    rcases mem_append.mp mem with old | new
    · exact plain row old
    · rw [mem_singleton.mp new]
      exact not_mem_nil
  · rw [← joinLines_concat_nil, append_assoc]
    rfl

theorem Loaded.typed {c : UInt8} (notNul : c ≠ 0) (notBreak : c ≠ lineFeed) :
    ∃ next, (putcToStr text c).bind moveToNextChar = some next ∧ Loaded next (bytes ++ [c]) := by
  obtain ⟨above, line, located, plain, rfl⟩ := loaded
  obtain ⟨moved, movedLocated, called⟩ := located.putcToStr_next notNul
  rw [movedLocated.adjustCursor_boundary (insideHan_append_nil _)] at called
  refine ⟨moved, called, above, line ++ [c], movedLocated, ?_, ?_⟩
  · intro row mem
    rcases mem_append.mp mem with old | new
    · exact plain row (mem_append_left _ old)
    · rw [mem_singleton] at new
      rw [new, mem_append, mem_singleton, not_or]
      exact ⟨plain line (by simp), notBreak.symm⟩
  · rw [joinLines_split, joinLines_singleton]

/-- At the end of a row a NUL changes nothing. -/
theorem Loaded.typed_nul :
    ∃ next, (putcToStr text 0).bind moveToNextChar = some next ∧ Loaded next bytes := by
  obtain ⟨above, line, located, loaded⟩ := loaded
  obtain ⟨stored, putc, storedLocated⟩ := located.putcToStr_nul
  exact ⟨stored, by rw [putc, bind_some, storedLocated.moveToNextChar_last],
    above, line, storedLocated, loaded⟩

theorem Loaded.readByte (lastc : Option UInt8) (c : UInt8) :
    ∃ next, Text.readByte text lastc c = some next ∧ Loaded next (bytes ++ readAs lastc c) := by
  rw [Text.readByte, readAs]
  by_cases skipped : c = lineFeed ∧ lastc = some carriageReturn
  · obtain ⟨rfl, rfl⟩ := skipped
    exact ⟨text, rfl, by simpa using loaded⟩
  rw [if_neg skipped, uniformByte]
  by_cases isReturn : c = carriageReturn
  · rw [if_pos (.inl isReturn), if_pos (.inl isReturn), if_pos isReturn]
    exact loaded.newLine
  rw [if_neg isReturn]
  by_cases isFeed : c = lineFeed
  · have alone : lastc ≠ some carriageReturn := fun equal => skipped ⟨isFeed, equal⟩
    rw [if_pos (.inr isFeed), if_pos (.inr ⟨isFeed, alone⟩), isFeed]
    exact loaded.newLine
  · rw [if_neg (not_or.mpr ⟨isReturn, isFeed⟩)]
    by_cases isNul : c = 0
    · rw [if_pos isNul, isNul, append_nil]
      exact loaded.typed_nul
    · rw [if_neg isNul]
      exact loaded.typed isNul isFeed

end

theorem Loaded.readChunk {chunk : List UInt8} (loaded : Loaded text bytes) (lastc : Option UInt8) :
    ∃ next last, Text.readChunk text lastc chunk = some (next, last) ∧
      Loaded next (bytes ++ readAll lastc chunk) := by
  induction chunk generalizing text bytes lastc with
  | nil => exact ⟨text, lastc, rfl, by rwa [readAll, append_nil]⟩
  | cons c rest ih =>
    obtain ⟨afterByte, called, byteLoaded⟩ := loaded.readByte lastc c
    obtain ⟨next, last, rest_eq, restLoaded⟩ := ih byteLoaded (some c)
    refine ⟨next, last, ?_, ?_⟩
    · rw [Text.readChunk, called]
      exact rest_eq
    · rwa [readAll, ← append_assoc]

theorem readChunk_append (first second : List UInt8) (text : Textframe) (lastc : Option UInt8) :
    readChunk text lastc (first ++ second) =
      (readChunk text lastc first).bind fun state => readChunk state.1 state.2 second := by
  induction first generalizing text lastc with
  | nil => rfl
  | cons c rest ih =>
    rw [cons_append, readChunk, readChunk]
    cases readByte text lastc c with
    | none => rfl
    | some next => exact ih next (some c)

section

variable {chunks : List (List UInt8)} (nonempty : ∀ chunk ∈ chunks, chunk ≠ [])
include nonempty

/-- How `read` divides the file does not matter. -/
theorem readChunks_eq_readChunk (text : Textframe) (lastc : Option UInt8) :
    readChunks text lastc chunks = (readChunk text lastc chunks.flatten).map Prod.fst := by
  induction chunks generalizing text lastc with
  | nil => rfl
  | cons chunk chunks ih =>
    have rest := ih fun chunk mem => nonempty chunk (mem_cons_of_mem _ mem)
    rw [readChunks, if_neg (nonempty chunk mem_cons_self), flatten_cons, readChunk_append]
    cases readChunk text lastc chunk with
    | none => rfl
    | some state => exact rest state.1 state.2

/-- The loaded text holds the bytes of the file with uniform line breaks; the
cursor is at its start. -/
theorem textframeRead_eq :
    ∃ text first rest, textframeRead chunks = some text ∧ Located text [] [] first rest ∧
      (∀ row ∈ text.data, lineFeed ∉ row) ∧
      joinLines lineFeed text.data = uniform chunks.flatten := by
  have start : Loaded (lineEditSetStr []) [] :=
    ⟨[], [], ⟨rfl, rfl, rfl⟩, by simp, joinLines_singleton _ _⟩
  have run : ∃ next last, readChunk (lineEditSetStr []) none chunks.flatten = some (next, last) ∧
      Loaded next ([] ++ readAll none chunks.flatten) := start.readChunk none
  obtain ⟨next, last, called, above, line, located, plain, bytes⟩ := run
  rw [readAll_eq_uniform (by simp)] at bytes
  have data_eq : next.data = above ++ [line] := by simpa using located.data_eq
  have positive : next.maxrow > 0 := by
    rw [located.maxrow_eq]
    omega
  cases rows : next.data with
  | nil => simp [rows] at data_eq
  | cons first rest =>
    have split : next.data = [] ++ first :: rest := rows
    have moved := Located.moveToPos_start split
    rw [length_nil, Int.natCast_zero] at moved
    refine ⟨{ moveToPos next 0 0 with maxrowCapacity := (moveToPos next 0 0).maxrow }, first,
      rest, ?_, ⟨moved.data_eq, moved.row_eq, moved.col_eq⟩, ?_, ?_⟩
    · rw [textframeRead, readChunks_eq_readChunk nonempty, called]
      simp only [map_some, bind_eq_bind, bind_some, if_pos positive]
    · rw [moved.data_eq, nil_append, nil_append, ← rows, data_eq]
      exact plain
    · rw [moved.data_eq, nil_append, nil_append, ← rows, data_eq]
      exact bytes

end

end XEditor.Text
