import XEditor.Lib.Pairing

/-!
# Flat buffers of characters

A buffer is a list of entries, some of them marked.  A character is a single
unmarked entry or a pair of marked ones.  The operations are the ones of an
editor with one buffer and an offset into it.
-/

namespace XEditor.Buffer

open List Pairing

universe u

variable {α : Type u} {mark : α → Bool}

/-- Insert an entry at an offset. -/
def insertAt (buffer : List α) (offset : Nat) (entry : α) : List α :=
  buffer.take offset ++ entry :: buffer.drop offset

/-- Number of entries of the last character of a list. -/
def lastWidth (mark : α → Bool) (entries : List α) : Nat :=
  match entries.getLast? with
  | none => 0
  | some entry => if mark entry then 2 else 1

/-- Remove the character before an offset, if there is one. -/
def removeBefore (mark : α → Bool) (buffer : List α) (offset : Nat) : List α :=
  buffer.take (offset - lastWidth mark (buffer.take offset)) ++ buffer.drop offset

/-- Number of characters of a list, where a marked entry starts a pair. -/
def charCount (mark : α → Bool) : List α → Nat
  | [] => 0
  | [_] => 1
  | first :: second :: rest =>
    if mark first then charCount mark rest + 1 else charCount mark (second :: rest) + 1

/-- The entries of one character. -/
inductive IsChar (mark : α → Bool) : List α → Prop
  | single {entry : α} : mark entry = false → IsChar mark [entry]
  | pair {first second : α} : mark first = true → mark second = true →
      IsChar mark [first, second]

variable {char : List α}

theorem IsChar.paired (isChar : IsChar mark char) : Paired mark char := by
  cases isChar with
  | single unmarked => exact (paired_cons_unmarked_iff unmarked []).mpr paired_nil
  | pair first second => exact (paired_cons_cons_marked_iff first second []).mpr paired_nil

theorem IsChar.length_pos (isChar : IsChar mark char) : 0 < char.length := by
  cases isChar <;> simp

/-- The first entry of a character tells how long it is. -/
theorem IsChar.length_eq (isChar : IsChar mark char) (rest : List α) :
    char.length = if (char ++ rest).head?.any mark then 2 else 1 := by
  cases isChar with
  | single unmarked => simp [unmarked]
  | pair first second => simp [first]

/-- So does the last one. -/
theorem IsChar.lastWidth_eq (isChar : IsChar mark char) (before : List α) :
    lastWidth mark (before ++ char) = char.length := by
  cases isChar with
  | single unmarked => simp [lastWidth, unmarked]
  | pair first second => simp [lastWidth, second]

theorem insertAt_length (before after : List α) (entry : α) :
    insertAt (before ++ after) before.length entry = before ++ entry :: after := by
  rw [insertAt, take_left, drop_left]

theorem removeBefore_zero (buffer : List α) : removeBefore mark buffer 0 = buffer := by
  simp [removeBefore]

theorem removeBefore_char (isChar : IsChar mark char) (before after : List α) :
    removeBefore mark (before ++ char ++ after) (before ++ char).length = before ++ after := by
  rw [removeBefore, take_left, drop_left, isChar.lastWidth_eq, length_append,
    Nat.add_sub_cancel, append_assoc, take_left]

/-- A list of whole characters is empty or ends in a character. -/
theorem eq_nil_or_concat_char {entries : List α} (paired : Paired mark entries) :
    entries = [] ∨
      ∃ before char, entries = before ++ char ∧ Paired mark before ∧ IsChar mark char := by
  rcases eq_nil_or_concat' entries with rfl | ⟨start, entry, rfl⟩
  · exact .inl rfl
  right
  cases marked : mark entry with
  | false =>
    refine ⟨start, [entry], rfl, ?_, .single marked⟩
    apply paired.of_append_left
    by_contra odd
    obtain ⟨-, -, right, after, -, second_eq, -, rightMarked, -⟩ := paired.split_pair (by omega)
    rw [cons.injEq] at second_eq
    rw [← second_eq.1, marked] at rightMarked
    contradiction
  | true =>
    have odd : markedSuffix mark start % 2 = 1 := by
      have even := paired.markedSuffix_even
      rw [markedSuffix_concat_marked marked] at even
      omega
    obtain ⟨before, left, right, after, rfl, second_eq, leftMarked, rightMarked, beforePaired,
      -⟩ := paired.split_pair odd
    obtain ⟨rfl, rfl⟩ := second_eq
    exact ⟨before, [left, entry], by simp, beforePaired, .pair leftMarked rightMarked⟩

theorem charCount_char (isChar : IsChar mark char) : charCount mark char = 1 := by
  cases isChar with
  | single unmarked => rfl
  | pair first second => simp [charCount, first]

theorem charCount_cons_unmarked {entry : α} (unmarked : mark entry = false) (rest : List α) :
    charCount mark (entry :: rest) = charCount mark rest + 1 := by
  cases rest with
  | nil => rfl
  | cons next rest => rw [charCount, if_neg (by simp [unmarked])]

variable {first : List α}

/-- Characters are counted part by part when the first part is whole. -/
theorem charCount_append (paired : Paired mark first) (second : List α) :
    charCount mark (first ++ second) = charCount mark first + charCount mark second := by
  induction first using charCount.induct mark with
  | case1 => simp [charCount]
  | case2 entry =>
    have unmarked : mark entry = false := by
      by_contra marked
      obtain ⟨partner, after, impossible, -⟩ := paired.cons_marked (by simpa using marked)
      contradiction
    rw [cons_append, charCount_cons_unmarked unmarked]
    simp only [nil_append, charCount]
    omega
  | case3 first next rest marked ih =>
    obtain ⟨partner, after, rest_eq, -, restPaired⟩ := paired.cons_marked marked
    obtain ⟨rfl, rfl⟩ := rest_eq
    rw [cons_append, cons_append, charCount, charCount, if_pos marked, if_pos marked, ih restPaired]
    omega
  | case4 first next rest notMarked ih =>
    rw [Bool.not_eq_true] at notMarked
    have restPaired := (paired_cons_unmarked_iff notMarked _).mp paired
    rw [cons_append, charCount_cons_unmarked notMarked, charCount_cons_unmarked notMarked,
      ih restPaired]
    omega

theorem charCount_eq_zero_iff (entries : List α) : charCount mark entries = 0 ↔ entries = [] := by
  cases entries with
  | nil => simp [charCount]
  | cons first rest =>
    cases rest with
    | nil => simp [charCount]
    | cons second rest =>
      simp only [charCount, reduceCtorEq, iff_false]
      split <;> exact Nat.succ_ne_zero _

/-- A longer part of whole characters has more characters. -/
theorem charCount_append_eq_iff (paired : Paired mark first) (second : List α) :
    charCount mark (first ++ second) = charCount mark first ↔ second = [] := by
  rw [charCount_append paired, Nat.add_eq_left, charCount_eq_zero_iff]

/-- Two starts of one list have equally many characters only if they are equally
long. -/
theorem charCount_start_eq_iff {firstRest second secondRest : List α}
    (firstPaired : Paired mark first) (secondPaired : Paired mark second)
    (same : first ++ firstRest = second ++ secondRest) :
    charCount mark first = charCount mark second ↔ first.length = second.length := by
  rcases append_eq_append_iff.mp same with ⟨more, rfl, -⟩ | ⟨more, rfl, -⟩
  · rw [eq_comm, charCount_append_eq_iff firstPaired, length_append, Nat.left_eq_add,
      length_eq_zero_iff]
  · rw [charCount_append_eq_iff secondPaired, length_append, Nat.add_eq_left, length_eq_zero_iff]

end XEditor.Buffer
