import XEditor.Pinyin.Table

/-!
# Reading the pinyin table

`pinyin_init` reads `pinyin.txt` byte by byte up to a colon and in pairs behind
it.  A pair that is no Han character ends the line; it is the end of the line
itself, or the line feed with the first letter of the next key.  A line is handed
on only when such a pair is read, so a last line without an end is lost.
-/

namespace XEditor.Pinyin

open List Option Text

/-! ## The source -/

/-- The buffers of `pinyin_init`, with the second byte of `cs`, which a read at
the end of the file leaves as it was. -/
structure Scanner where
  pinyin : Row
  han : Row
  cs1 : UInt8

/-- Append a string to one in a buffer of a given size, as `strcpy` behind its end
does. -/
def appendTo (size : Nat) (buffer str : Row) : Option Row :=
  if buffer.length + str.length < size then some (buffer ++ str) else none

/-- The letters of a pair that ends a line, which start the next key.  Each is
copied up to the end of `cs`. -/
def startKey (c d : UInt8) : Row :=
  (if isSmall c then [c, d].takeWhile (· ≠ 0) else []) ++ if isSmall d then [d] else []

def colon : UInt8 := 58

/-- The two loops of `pinyin_init`, the inner one if the flag is set: the calls of
`handle_pinyin_hans`, in order. -/
def scan : (inHans : Bool) → Scanner → (content : Row) → Option (List (Row × Row))
  | _, _, [] => some []
  | false, scanner, c :: content =>
    if isSmall c then do
      let pinyin ← appendTo 100 scanner.pinyin [c]
      scan false { scanner with pinyin := pinyin, cs1 := 0 } content
    else if c = colon then scan true { scanner with cs1 := 0 } content
    else if c = carriageReturn ∨ c = lineFeed then
      scan false { scanner with pinyin := [], cs1 := 0 } content
    else scan false { scanner with cs1 := 0 } content
  -- Only one byte is left for a read of two.
  | true, scanner, [c] =>
    if isHan c ∧ isHan scanner.cs1 then do
      let _ ← appendTo 4096 scanner.han [c, scanner.cs1]
      some []
    else some [(scanner.pinyin, scanner.han)]
  | true, scanner, c :: d :: content =>
    if isHan c ∧ isHan d then do
      let han ← appendTo 4096 scanner.han [c, d]
      scan true { scanner with han := han, cs1 := d } content
    else do
      let calls ← scan false ⟨startKey c d, [], d⟩ content
      some ((scanner.pinyin, scanner.han) :: calls)

/-- Source `pinyin_init`: the calls of `handle_pinyin_hans` for a file. -/
def pinyinInit (content : Row) : Option (List (Row × Row)) :=
  scan false ⟨[], [], 0⟩ content

/-! ## Files -/

/-- A line of the table. -/
structure Entry where
  key : Row
  hans : List (UInt8 × UInt8)
  nonempty : key ≠ []
  letters : ∀ c ∈ key, isSmall c
  short : key.length < 100
  isHan : ∀ pair ∈ hans, isHan pair.1 ∧ isHan pair.2
  fits : 2 * hans.length < 4096

/-- The bytes of some characters. -/
def hanBytes (hans : List (UInt8 × UInt8)) : Row :=
  hans.flatMap fun pair => [pair.1, pair.2]

/-- The call for a line. -/
def Entry.call (entry : Entry) : Row × Row :=
  (entry.key, hanBytes entry.hans)

def Entry.bytes (entry : Entry) : Row :=
  entry.key ++ colon :: hanBytes entry.hans

/-- The end of a line: a line feed, with a carriage return before it if the flag
is set. -/
def ending (carriage : Bool) : Row :=
  if carriage then [carriageReturn, lineFeed] else [lineFeed]

/-- A file of lines with their ends, and a last one that may have none. -/
def fileOf : List (Entry × Bool) → Option Entry → Row
  | [], last => (last.map Entry.bytes).getD []
  | (entry, carriage) :: lines, last => entry.bytes ++ ending carriage ++ fileOf lines last

/-! ## One line -/

/-- The outer loop sets the second byte itself. -/
theorem scan_cs1 (pinyin han content : Row) (old new : UInt8) :
    scan false ⟨pinyin, han, old⟩ content = scan false ⟨pinyin, han, new⟩ content := by
  cases content with
  | nil => rfl
  | cons c content => simp only [scan]

/-- The outer loop reads a key up to its colon. -/
theorem scan_key {key : Row} (letters : ∀ c ∈ key, isSmall c) (scanner : Scanner)
    (short : scanner.pinyin.length + key.length < 100) (content : Row) :
    scan false scanner (key ++ colon :: content) =
      scan true ⟨scanner.pinyin ++ key, scanner.han, 0⟩ content := by
  induction key generalizing scanner with
  | nil =>
    rw [nil_append, append_nil, scan, if_neg (by decide), if_pos rfl]
  | cons c key ih =>
    rw [length_cons] at short
    have appended : appendTo 100 scanner.pinyin [c] = some (scanner.pinyin ++ [c]) :=
      if_pos (by rw [length_singleton]; omega)
    rw [cons_append, scan, if_pos (letters c (mem_cons_self ..)), appended, bind_eq_bind, bind_some,
      ih fun d isIn => letters d (mem_cons_of_mem c isIn)]
    · rw [append_assoc, singleton_append]
    · rw [length_append, length_singleton]
      omega

/-- The inner loop reads Han characters. -/
theorem scan_hans {hans : List (UInt8 × UInt8)}
    (areHan : ∀ pair ∈ hans, isHan pair.1 ∧ isHan pair.2) (pinyin han : Row) (cs1 : UInt8)
    (fits : han.length + 2 * hans.length < 4096) (content : Row) :
    ∃ next, scan true ⟨pinyin, han, cs1⟩ (hanBytes hans ++ content) =
      scan true ⟨pinyin, han ++ hanBytes hans, next⟩ content := by
  induction hans generalizing han cs1 with
  | nil =>
    rw [hanBytes, flatMap_nil, append_nil]
    exact ⟨cs1, rfl⟩
  | cons pair hans ih =>
    obtain ⟨c, d⟩ := pair
    have isChar := areHan (c, d) (mem_cons_self ..)
    rw [length_cons] at fits
    have appended : appendTo 4096 han [c, d] = some (han ++ [c, d]) :=
      if_pos (by simp only [length_cons, length_nil]; omega)
    obtain ⟨next, later⟩ := ih
      (fun pair isIn => areHan pair (mem_cons_of_mem _ isIn)) (han ++ [c, d]) d
      (by simp only [length_append, length_cons, length_nil]; omega)
    refine ⟨next, ?_⟩
    rw [show hanBytes ((c, d) :: hans) = [c, d] ++ hanBytes hans from rfl]
    simp only [cons_append, nil_append]
    rw [scan, if_pos isChar, appended, bind_eq_bind, bind_some, later, append_assoc]
    rfl

/-- The end of a line hands the line on, whatever the second byte was, if what
follows starts with a letter or is nothing. -/
theorem scan_ending (pinyin han : Row) (cs1 : UInt8) (carriage : Bool) {content : Row}
    (starts : ∀ c ∈ content.head?, isSmall c) :
    scan true ⟨pinyin, han, cs1⟩ (ending carriage ++ content) =
      (scan false ⟨[], [], 0⟩ content).map ((pinyin, han) :: ·) := by
  have calls (c : UInt8) : (scan false ⟨[], [], c⟩ content).map ((pinyin, han) :: ·) =
      (scan false ⟨[], [], 0⟩ content).map ((pinyin, han) :: ·) := by
    rw [scan_cs1 [] [] content c 0]
  cases carriage with
  | true =>
    rw [← calls lineFeed]
    exact (map_eq_bind ..).symm
  | false =>
    cases content with
    | nil => rfl
    | cons c content =>
      have isLetter := starts c rfl
      have key : startKey lineFeed c = [c] := by
        rw [startKey, if_neg (by decide), if_pos isLetter, nil_append]
      have line : scan true ⟨pinyin, han, cs1⟩ (lineFeed :: c :: content) =
          (scan false ⟨startKey lineFeed c, [], c⟩ content).bind fun calls =>
            some ((pinyin, han) :: calls) :=
        if_neg fun both => absurd both.1 (by decide)
      have next : scan false ⟨[], [], 0⟩ (c :: content) = scan false ⟨[c], [], 0⟩ content :=
        if_pos isLetter
      rw [ending, if_neg (by decide), singleton_append, line, key, next,
        scan_cs1 [c] [] content c 0, map_eq_bind]
      rfl

/-! ## Whole files -/

theorem fileOf_head (lines : List (Entry × Bool)) (last : Option Entry) :
    ∀ c ∈ (fileOf lines last).head?, isSmall c := by
  have starts (entry : Entry) (content : Row) :
      ∀ c ∈ (entry.bytes ++ content).head?, isSmall c := by
    intro c isHead
    obtain ⟨first, key, isKey⟩ := exists_cons_of_ne_nil entry.nonempty
    rw [Entry.bytes, isKey] at isHead
    cases isHead
    exact entry.letters _ (isKey ▸ mem_cons_self ..)
  cases lines with
  | nil =>
    cases last with
    | none => exact fun c isHead => absurd isHead (by simp [fileOf])
    | some entry =>
      have head := starts entry []
      rw [append_nil] at head
      exact head
  | cons line lines =>
    rw [fileOf, append_assoc]
    exact starts _ _

/-- A line read up to its end. -/
theorem scan_entry (entry : Entry) (content : Row) :
    ∃ next, scan false ⟨[], [], 0⟩ (entry.bytes ++ content) =
      scan true ⟨entry.key, hanBytes entry.hans, next⟩ content := by
  have fits := entry.fits
  obtain ⟨next, hans⟩ := scan_hans entry.isHan entry.key [] 0 (by rw [length_nil]; omega) content
  refine ⟨next, ?_⟩
  rw [Entry.bytes, append_assoc, cons_append,
    scan_key entry.letters _ (by rw [length_nil, Nat.zero_add]; exact entry.short)]
  exact hans

/-- The lines with an end are handed on, in order. -/
theorem pinyinInit_fileOf (lines : List (Entry × Bool)) (last : Option Entry) :
    pinyinInit (fileOf lines last) = some (lines.map fun line => line.1.call) := by
  induction lines with
  | nil =>
    cases last with
    | none => rfl
    | some entry =>
      obtain ⟨next, read⟩ := scan_entry entry []
      rw [append_nil] at read
      exact read.trans rfl
  | cons line lines ih =>
    obtain ⟨entry, carriage⟩ := line
    obtain ⟨next, read⟩ := scan_entry entry (ending carriage ++ fileOf lines last)
    rw [pinyinInit] at ih
    rw [pinyinInit, fileOf, append_assoc, read,
      scan_ending _ _ next carriage (fileOf_head lines last), ih]
    rfl

/-- Each line is handed on exactly once and in order exactly when the last one has
an end. -/
theorem pinyinInit_complete_iff (lines : List (Entry × Bool)) (last : Option Entry) :
    pinyinInit (fileOf lines last) =
        some ((lines.map fun line => line.1.call) ++ (last.map Entry.call).toList) ↔
      last = none := by
  rw [pinyinInit_fileOf]
  cases last <;> simp

/-- The line `a:` with one character. -/
def aEntry : Entry where
  key := [97]
  hans := [(176, 162)]
  nonempty := cons_ne_nil _ _
  letters := forall_mem_singleton.mpr rfl
  short := by decide
  isHan := forall_mem_singleton.mpr ⟨rfl, rfl⟩
  fits := by decide

/-- The file with that line and no end of line. -/
theorem pinyinInit_loses_line :
    pinyinInit (fileOf [] (some aEntry)) = some [] ∧ aEntry.call = ([97], [176, 162]) := by
  decide

end XEditor.Pinyin
