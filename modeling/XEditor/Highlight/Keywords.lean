import XEditor.Highlight.Comments

/-!
# The colors of keywords

A keyword is recognized by the byte behind it, and this byte is drawn in its color
as well.  So the columns in the colors of keywords are those of whole words only in
rows in which no keyword is recognized before the end.
-/

namespace XEditor.Highlight

open List Option Text

/-! ## Whole words -/

/-- The characters of identifiers. -/
def isIdentifier (c : UInt8) : Bool :=
  continuesWord c || decide (65 ≤ c ∧ c ≤ 90)

/-- A longest run of characters of identifiers, with what is before and behind
it. -/
structure WholeWord (before word after : Row) : Prop where
  letters : ∀ c ∈ word, isIdentifier c = true
  left : ∀ c ∈ before.getLast?, isIdentifier c = false
  right : ∀ c ∈ after.head?, isIdentifier c = false

/-- A column lies in a whole word that is one of a list. -/
def InWord (row : Row) (words : List Row) (col : Nat) : Prop :=
  ∃ before word after, row = before ++ (word ++ after) ∧ WholeWord before word after ∧
    word ∈ words ∧ before.length ≤ col ∧ col < before.length + word.length

/-- The keywords, each kind with its color. -/
def kinds : List (Nat × List Row) :=
  [(typesColor, types), (reserveColor, reserve)]

/-- No keyword is recognized before the end of a row, and the keywords that are
whole words are the one that is matched there, if it is one. -/
structure OnlyLast (row : Row) : Prop where
  silent : ∀ k < row.length, event row k = none
  last : ∀ before word after, row = before ++ (word ++ after) → WholeWord before word after →
    word ∈ types ++ reserve → after = [] ∧ word = pending row
  whole : pending row ∈ types ++ reserve → ∀ before, row = before ++ pending row →
    ∀ c ∈ before.getLast?, isIdentifier c = false

variable {kind : Nat × List Row} {word before after : Row} {k : Nat}

theorem colorOf_eq_iff (isKind : kind ∈ kinds) (word : Row) :
    colorOf word = kind.1 ↔ word ∈ kind.2 := by
  have ofWord : ∀ kind ∈ kinds, ∀ word ∈ kind.2, colorOf word = kind.1 := by decide
  refine ⟨fun isColor => ?_, ofWord kind isKind word⟩
  simp only [kinds, mem_cons, not_mem_nil, or_false] at isKind
  rcases isKind with rfl | rfl <;> simp only [colorOf] at isColor <;> split_ifs at isColor <;>
    first | assumption | exact absurd isColor (by decide)

theorem mem_keywords : word ∈ types ++ reserve ↔ ∃ kind ∈ kinds, word ∈ kind.2 := by
  simp [kinds]

theorem colorOf_ne_zero (notSpecial : word ∉ special) :
    colorOf word ≠ 0 ↔ word ∈ types ++ reserve := by
  constructor
  · intro colored
    by_contra noKeyword
    rw [mem_append, not_or] at noKeyword
    rw [colorOf, if_neg notSpecial, if_neg noKeyword.2, if_neg noKeyword.1] at colored
    exact colored rfl
  · intro isKeyword
    obtain ⟨kind, isKind, isWord⟩ := mem_keywords.mp isKeyword
    rw [(colorOf_eq_iff isKind word).mpr isWord]
    exact (by decide : ∀ kind ∈ kinds, kind.1 ≠ 0) kind isKind

/-- Keywords are of small letters. -/
theorem continuesWord_of_keyword :
    ∀ word ∈ types ++ reserve, word ≠ [] ∧ ∀ c ∈ word, continuesWord c = true := by
  decide +kernel

theorem isIdentifier_of_keyword (isKeyword : word ∈ types ++ reserve) (c : UInt8)
    (isLetter : c ∈ word) : isIdentifier c = true := by
  rw [isIdentifier, (continuesWord_of_keyword word isKeyword).2 c isLetter]
  rfl

/-! ## Reports -/

section

variable {row : Row} (noComment : ∀ p, ¬ StartsComment row p)

include noComment

theorem matchedAt_not_special (inside : k ≤ row.length + 1) : matchedAt row k ∉ special := by
  intro isSpecial
  obtain ⟨p, -, starts, -⟩ := exists_recognized inside isSpecial
  exact noComment p starts

/-- Without comments only keywords are reported. -/
theorem event_eq (inside : k ≤ row.length) :
    event row k = if matchedAt row k ∈ types ++ reserve ∧ matchedAt row (k + 1) = [] ∧
      continuesWord (byteAt row k) = false then
        some (colorOf (matchedAt row k), (matchedAt row k).length) else none := by
  have notSpecial := matchedAt_not_special noComment (Nat.le_succ_of_le inside)
  have notEntered := matchedAt_not_special noComment (Nat.succ_le_succ inside)
  rw [matchedAt_succ inside] at notEntered ⊢
  have moved : ¬ (matchedAt row k ∈ types ++ reserve ∧
      follow (matchedAt row k) (byteAt row k) = matchedAt row k) := by
    rintro ⟨isKeyword, same⟩
    rw [follow, if_neg notSpecial] at same
    split at same
    · simp at same
    · exact absurd (same ▸ isKeyword) (by decide)
  simp only [event, mark, colorOf_ne_zero notSpecial, if_neg moved, notEntered, and_false, if_false]

/-- The matched word is the end of what has been read. -/
theorem matchedAt_suffix (inside : k ≤ row.length) :
    ∃ before, row.take k = before ++ matchedAt row k := by
  induction k with
  | zero => exact ⟨[], rfl⟩
  | succ k ih =>
    obtain ⟨before, read⟩ := ih (by omega)
    have notSpecial := matchedAt_not_special noComment (k := k) (by omega)
    have byte : byteAt row k = row[k] := by
      rw [byteAt, getD_eq_getElem?_getD, getElem?_eq_getElem inside]
      rfl
    rw [take_succ_eq_append_getElem inside, matchedAt_succ (by omega), follow, if_neg notSpecial,
      ← byte, read, append_assoc]
    split
    · exact ⟨before, rfl⟩
    · exact ⟨_, (append_nil _).symm⟩

/-- At the end of the row a keyword that is matched is reported. -/
theorem event_end :
    event row row.length = if pending row ∈ types ++ reserve then
      some (colorOf (pending row), (pending row).length) else none := by
  have matched : matchedAt row row.length = pending row := by
    rw [matchedAt_eq_pending (Nat.le_refl _), take_length]
  have ended : byteAt row row.length = 0 := by
    rw [byteAt, getD_eq_getElem?_getD, getElem?_eq_none (Nat.le_refl _)]
    rfl
  have noWord : matchedAt row (row.length + 1) = [] := by
    have notSpecial := matchedAt_not_special noComment (Nat.le_succ row.length)
    rw [matchedAt_succ (Nat.le_refl _), ended, follow, if_neg notSpecial, if_neg]
    rintro (empty | ⟨entry, isEntry, begins⟩)
    · simp at empty
    · have noNul : ∀ entry ∈ entries, (0 : UInt8) ∉ entry.1 := by decide
      exact noNul entry isEntry (begins.subset (by simp))
  rw [event_eq noComment (Nat.le_refl _), ended, noWord, matched]
  simp only [and_true, show continuesWord 0 = false by decide]

/-- Without another report the columns of the word at the end are colored. -/
theorem colored_end_iff (silent : ∀ k < row.length, event row k = none) {col : Nat}
    (inRow : col < row.length) (isKind : kind ∈ kinds) :
    Colored row col kind.1 ↔ pending row ∈ kind.2 ∧ row.length ≤ col + (pending row).length := by
  constructor
  · rintro ⟨k, count, -, inside, -, report, reaches⟩
    obtain rfl | before := Nat.eq_or_lt_of_le inside
    · rw [event_end noComment, ite_none_right_eq_some, some.injEq, Prod.mk.injEq] at report
      obtain ⟨-, isColor, rfl⟩ := report
      exact ⟨(colorOf_eq_iff isKind _).mp isColor, reaches⟩
    · rw [silent k before] at report
      cases report
  · rintro ⟨isWord, reaches⟩
    refine ⟨row.length, _, inRow.le, Nat.le_refl _, fun j _ last => silent j last, ?_, reaches⟩
    rw [event_end noComment, if_pos (mem_keywords.mpr ⟨kind, isKind, isWord⟩),
      (colorOf_eq_iff isKind _).mpr isWord]

end

theorem byteAt_mem {row : Row} (row_eq : row = before ++ (word ++ after)) (low : before.length ≤ k)
    (high : k < before.length + word.length) : byteAt row k ∈ word := by
  subst row_eq
  rw [byteAt, getD_eq_getElem?_getD, getElem?_append_right low,
    getElem?_append_left (by omega), getElem?_eq_getElem (by omega)]
  exact getElem_mem _

/-- A whole word that reaches into a word at the end of the row is this word. -/
theorem WholeWord.eq_last {front last : Row} (whole : WholeWord before word after)
    (letters : ∀ c ∈ last, isIdentifier c = true)
    (split : before ++ (word ++ after) = front ++ last) (reaches : front.length ≤ before.length) :
    after = [] ∧ word = last := by
  obtain ⟨middle, rfl⟩ := prefix_of_prefix_length_le ( prefix_append front last) ⟨_, split⟩ reaches
  rw [append_assoc] at split
  obtain rfl := append_cancel_left split
  rcases eq_nil_or_concat' middle with rfl | ⟨middle, c, rfl⟩
  · cases after with
    | nil => exact ⟨rfl, by simp⟩
    | cons c after =>
      have noLetter := whole.right c rfl
      rw [letters c (by simp)] at noLetter
      contradiction
  · have noLetter := whole.left c (by simp)
    rw [letters c (by simp)] at noLetter
    contradiction

/-- The columns in the colors of keywords are those of the whole words if and only
if keywords are recognized at the end of the row only. -/
theorem keywords_colored_iff {row : Row} (noComment : ∀ p, ¬ StartsComment row p)
    (noHan : ∀ k, ¬ (isHan (byteAt row k) ∧ isHan (byteAt row (k + 1)))) :
    (∀ col < row.length, ∀ kind ∈ kinds,
      (col, kind.1) ∈ rowColors highlightInit true row ↔ InWord row kind.2 col) ↔
    OnlyLast row := by
  have drawn {col : Nat} (inRow : col < row.length) {kind : Nat × List Row}
      (isKind : kind ∈ kinds) :
      (col, kind.1) ∈ rowColors highlightInit true row ↔ Colored row col kind.1 :=
    mem_rowColors noHan ((by decide : ∀ kind ∈ kinds, kind.1 ≠ 0) kind isKind) inRow
  obtain ⟨front, split⟩ := matchedAt_suffix noComment (Nat.le_refl row.length)
  rw [take_length, matchedAt_eq_pending (Nat.le_refl _), take_length] at split
  have split_length := congrArg length split
  rw [length_append] at split_length
  constructor
  · intro all
    have silent : ∀ k < row.length, event row k = none := by
      intro k inRow
      have report := event_eq noComment inRow.le
      rw [report]
      refine if_neg fun reported => ?_
      -- The byte behind the keyword is colored, and no letter.
      obtain ⟨kind, isKind, isWord⟩ := mem_keywords.mp reported.1
      rw [if_pos reported, (colorOf_eq_iff isKind _).mpr isWord] at report
      obtain ⟨before, word, after, row_eq, -, isWord', low, high⟩ := (all k inRow kind isKind).mp
        ((drawn inRow isKind).mpr ⟨k, _, Nat.le_refl k, inRow.le, by omega, report, by omega⟩)
      have isKeyword := mem_keywords.mpr ⟨kind, isKind, isWord'⟩
      have letter := (continuesWord_of_keyword word isKeyword).2 _ (byteAt_mem row_eq low high)
      exact absurd (letter.symm.trans reported.2.2) (by decide)
    have last : ∀ before word after, row = before ++ (word ++ after) →
        WholeWord before word after → word ∈ types ++ reserve →
          after = [] ∧ word = pending row := by
      intro before word after row_eq whole isKeyword
      obtain ⟨kind, isKind, isWord⟩ := mem_keywords.mp isKeyword
      have pos := length_pos_iff.mpr (continuesWord_of_keyword word isKeyword).1
      have inRow : before.length < row.length := by
        rw [row_eq, length_append, length_append]
        omega
      obtain ⟨isLast, reaches⟩ := (colored_end_iff noComment silent inRow isKind).mp
        ((drawn inRow isKind).mp ((all _ inRow kind isKind).mpr
          ⟨before, word, after, row_eq, whole, isWord, Nat.le_refl _, by omega⟩))
      have letters := isIdentifier_of_keyword (mem_keywords.mpr ⟨kind, isKind, isLast⟩)
      exact whole.eq_last letters (row_eq.symm.trans split) (by omega)
    refine ⟨silent, last, fun isKeyword before row_eq => ?_⟩
    obtain ⟨kind, isKind, isWord⟩ := mem_keywords.mp isKeyword
    have pos := length_pos_iff.mpr (continuesWord_of_keyword _ isKeyword).1
    have lengths := congrArg length row_eq
    rw [length_append] at lengths
    have inRow : before.length < row.length := by omega
    obtain ⟨other, word, after, other_eq, whole, isWord', -⟩ := (all _ inRow kind isKind).mp
      ((drawn inRow isKind).mpr ((colored_end_iff noComment silent inRow isKind).mpr
        ⟨isWord, by omega⟩))
    obtain ⟨rfl, rfl⟩ := last other word after other_eq whole
      (mem_keywords.mpr ⟨kind, isKind, isWord'⟩)
    rw [append_nil] at other_eq
    rw [append_cancel_right (row_eq.symm.trans other_eq)]
    exact whole.left
  · intro only col inRow kind isKind
    rw [drawn inRow isKind, colored_end_iff noComment only.silent inRow isKind]
    constructor
    · rintro ⟨isWord, reaches⟩
      have isKeyword := mem_keywords.mpr ⟨kind, isKind, isWord⟩
      refine ⟨front, pending row, [], ?_, ⟨?_, only.whole isKeyword front split, nofun⟩, isWord,
        by omega, by omega⟩
      · rwa [append_nil]
      · exact isIdentifier_of_keyword isKeyword
    · rintro ⟨before, word, after, row_eq, whole, isWord, low, high⟩
      obtain ⟨rfl, rfl⟩ := only.last before word after row_eq whole
        (mem_keywords.mpr ⟨kind, isKind, isWord⟩)
      have := congrArg length row_eq
      rw [append_nil, length_append] at this
      exact ⟨isWord, by omega⟩

/-- A type at the end of the row. -/
def typeAtEnd : Row :=
  [40, 105, 110, 116]

theorem typeAtEnd_noComment (p : Nat) : ¬ StartsComment typeAtEnd p := by
  match p with
  | 0 | 1 | 2 | 3 => decide
  | p + 4 =>
    rintro (isHash | ⟨isSlash, -⟩)
    · exact absurd (show (0 : UInt8) = 35 from isHash) (by decide)
    · exact absurd (show (0 : UInt8) = 47 from isSlash) (by decide)

theorem typeAtEnd_onlyLast : OnlyLast typeAtEnd := by
  have isPending : pending typeAtEnd = [105, 110, 116] := by decide
  have split : typeAtEnd = [40] ++ pending typeAtEnd := by rw [isPending]; rfl
  have letters : ∀ c ∈ pending typeAtEnd, isIdentifier c = true :=
    isIdentifier_of_keyword (by rw [isPending]; decide)
  refine ⟨by decide, fun before word after row_eq whole isKeyword => ?_, fun _ before row_eq => ?_⟩
  · refine whole.eq_last letters (row_eq.symm.trans split) ?_
    -- the bracket is no letter, so the word does not start the row
    cases before with
    | cons c before => exact Nat.succ_le_succ (Nat.zero_le _)
    | nil =>
      have pos := length_pos_iff.mpr (continuesWord_of_keyword word isKeyword).1
      have bracket := whole.letters _ (byteAt_mem row_eq (Nat.le_refl 0) (by simpa using pos))
      exact absurd bracket (by decide)
  · rw [← append_cancel_right (split.symm.trans row_eq)]
    rintro c ⟨⟩
    rfl

/-- In `(int` the columns of `int` and no others have the color of types. -/
theorem keywords_colored_typeAtEnd :
    OnlyLast typeAtEnd ∧ ∀ col < 4, ∀ kind ∈ kinds,
      (col, kind.1) ∈ rowColors highlightInit true typeAtEnd ↔ InWord typeAtEnd kind.2 col :=
  ⟨typeAtEnd_onlyLast, (keywords_colored_iff typeAtEnd_noComment
    (noHan_of_single (by decide))).mpr typeAtEnd_onlyLast⟩

/-- A call of a type. -/
def typeCall : Row :=
  [105, 110, 116, 40]

/-- The bracket behind `int` has the color of types. -/
theorem bracket_colored :
    (3, typesColor) ∈ rowColors highlightInit true typeCall ∧ ¬ InWord typeCall types 3 := by
  constructor
  · rw [mem_rowColors (noHan_of_single (by decide)) (by decide) (by decide)]
    exact ⟨3, 3, Nat.le_refl 3, by decide, by omega, by decide, by decide⟩
  · rintro ⟨before, word, after, row_eq, whole, -, low, high⟩
    exact absurd (whole.letters _ (byteAt_mem row_eq low high)) (by decide)

end XEditor.Highlight
