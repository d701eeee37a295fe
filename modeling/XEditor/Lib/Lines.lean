import Mathlib.Data.List.Basic

/-!
# Texts as lists of lines

A text is a nonempty list of lines.  Two texts are put behind one another by
joining the last line of the first with the first line of the second, so the
number of line breaks adds up.  Reading a text as one flat list, with a
separator between neighbouring lines, turns this operation into concatenation.
-/

namespace XEditor.Lines

open List

universe u

variable {α : Type u}

/-- Put one text behind another; only the two lines that meet are joined. -/
def glue (first second : List (List α)) : List (List α) :=
  first.dropLast ++ (first.getLast?.getD [] ++ second.head?.getD []) :: second.tail

/-- The rule by which every `glue` is computed. -/
theorem glue_concat_cons (above : List (List α)) (before after : List α)
    (below : List (List α)) :
    glue (above ++ [before]) (after :: below) = above ++ (before ++ after) :: below := by
  simp [glue]

@[simp]
theorem glue_singleton_singleton (before after : List α) :
    glue [before] [after] = [before ++ after] := by
  simp [glue]

theorem glue_singleton_cons (before after : List α) (below : List (List α)) :
    glue [before] (after :: below) = (before ++ after) :: below := by
  simp [glue]

theorem glue_concat_singleton (above : List (List α)) (before after : List α) :
    glue (above ++ [before]) [after] = above ++ [before ++ after] := by
  simp [glue]

theorem glue_ne_nil (first second : List (List α)) : glue first second ≠ [] := by
  simp [glue]

/-- Gluing loses no entry. -/
theorem flatten_glue (first second : List (List α)) :
    (glue first second).flatten = first.flatten ++ second.flatten := by
  have firstFlatten : first.dropLast.flatten ++ first.getLast?.getD [] = first.flatten := by
    rcases eq_nil_or_concat' first with rfl | ⟨above, before, rfl⟩ <;> simp
  have secondFlatten : second.head?.getD [] ++ second.tail.flatten = second.flatten := by
    cases second <;> simp
  rw [glue, flatten_append, flatten_cons, ← firstFlatten, ← secondFlatten]
  simp only [append_assoc]

variable {first second text : List (List α)}

/-- Gluing merges one pair of lines. -/
theorem length_glue (firstNonempty : first ≠ []) (secondNonempty : second ≠ []) :
    (glue first second).length + 1 = first.length + second.length := by
  have := length_pos_iff.mpr firstNonempty
  have := length_pos_iff.mpr secondNonempty
  simp only [glue, length_append, length_dropLast, length_cons, length_tail]
  omega

/-- Lines above the joint take no part in gluing. -/
theorem glue_append_left (above : List (List α)) (second : List (List α)) (nonempty : first ≠ []) :
    glue (above ++ first) second = above ++ glue first second := by
  rcases eq_nil_or_concat' first with rfl | ⟨start, before, rfl⟩
  · exact absurd rfl nonempty
  · simp [glue]

/-- Lines below the joint take no part in gluing. -/
theorem glue_append_right (first : List (List α)) (below : List (List α)) (nonempty : second ≠ []) :
    glue first (second ++ below) = glue first second ++ below := by
  cases second with
  | nil => exact absurd rfl nonempty
  | cons after rest => simp [glue]

/-- A text that has both ends in one line, or one with two different ends. -/
theorem singleton_or_two_ends (nonempty : text ≠ []) :
    (∃ line, text = [line]) ∨ ∃ first middle last, text = first :: (middle ++ [last]) := by
  cases text with
  | nil => exact absurd rfl nonempty
  | cons first rest =>
    rcases eq_nil_or_concat' rest with rfl | ⟨middle, last, rfl⟩
    · exact Or.inl ⟨first, rfl⟩
    · exact Or.inr ⟨first, middle, last, rfl⟩

/-- Gluing is associative on texts. -/
theorem glue_assoc (first : List (List α)) (third : List (List α)) (nonempty : second ≠ []) :
    glue (glue first second) third = glue first (glue second third) := by
  rcases singleton_or_two_ends nonempty with ⟨line, rfl⟩ | ⟨head, middle, last, rfl⟩
  · simp [glue]
  · simp [glue, dropLast_cons_of_ne_nil, getLast?_cons]

/-- Lines glued in front can be cancelled. -/
theorem glue_left_cancel {before : List α} (firstNonempty : first ≠ [])
    (secondNonempty : second ≠ []) (equal : glue [before] first = glue [before] second) :
    first = second := by
  cases first with
  | nil => exact absurd rfl firstNonempty
  | cons head rest =>
    cases second with
    | nil => exact absurd rfl secondNonempty
    | cons head' rest' =>
      rw [glue_singleton_cons, glue_singleton_cons, cons.injEq, append_cancel_left_eq] at equal
      rw [equal.1, equal.2]

/-- Lines glued behind can be cancelled. -/
theorem glue_right_cancel {after : List α} (firstNonempty : first ≠ [])
    (secondNonempty : second ≠ []) (equal : glue first [after] = glue second [after]) :
    first = second := by
  rcases eq_nil_or_concat' first with rfl | ⟨above, before, rfl⟩
  · exact absurd rfl firstNonempty
  rcases eq_nil_or_concat' second with rfl | ⟨above', before', rfl⟩
  · exact absurd rfl secondNonempty
  rw [glue_concat_singleton, glue_concat_singleton] at equal
  obtain ⟨aboveEq, lastEq⟩ := append_inj' equal rfl
  rw [cons.injEq, append_cancel_right_eq] at lastEq
  rw [aboveEq, lastEq.1]

/-- Moving a text over the word behind it changes nothing exactly when the two
commute, that is for an empty word or for a single line. -/
theorem glue_singleton_comm_iff {word : List α} (nonempty : text ≠ []) :
    glue [word] text = glue text [word] ↔
      word = [] ∨ ∃ line, text = [line] ∧ word ++ line = line ++ word := by
  rcases singleton_or_two_ends nonempty with ⟨line, rfl⟩ | ⟨first, middle, last, rfl⟩
  · rw [glue_singleton_singleton, glue_singleton_singleton, cons.injEq, and_iff_left rfl]
    constructor
    · intro commute
      exact Or.inr ⟨line, rfl, commute⟩
    rintro (rfl | ⟨line', line_eq, commute⟩)
    · simp
    · cases line_eq
      exact commute
  · have right : glue (first :: (middle ++ [last])) [word] = first :: (middle ++ [last ++ word]) :=
      glue_concat_singleton (first :: middle) last word
    rw [glue_singleton_cons, right, cons.injEq]
    constructor
    · rintro ⟨head, -⟩
      exact Or.inl (append_left_eq_self.mp head)
    rintro (rfl | ⟨line, line_eq, -⟩)
    · simp
    · have := congrArg List.length line_eq
      simp at this

/-- The same for a text between two halves of a larger one. -/
theorem glue_shift_iff (above : List (List α)) (before word after : List α) (below : List (List α))
    (nonempty : text ≠ []) :
    glue (glue (above ++ [before ++ word]) text) (after :: below) =
        glue (glue (above ++ [before]) text) ((word ++ after) :: below) ↔
      glue [word] text = glue text [word] := by
  have moved : glue (glue (above ++ [before ++ word]) text) (after :: below) =
      above ++ (glue (glue [before] (glue [word] text)) [after] ++ below) := by
    have first : glue [before ++ word] text = glue [before] (glue [word] text) := by
      rw [← glue_singleton_singleton before word, glue_assoc _ _ (cons_ne_nil _ _)]
    rw [glue_append_left _ _ (by simp), glue_append_left _ _ (glue_ne_nil _ _), first,
      ← glue_append_right _ _ (by simp), singleton_append]
  have original : glue (glue (above ++ [before]) text) ((word ++ after) :: below) =
      above ++ (glue (glue [before] (glue text [word])) [after] ++ below) := by
    have last : glue (glue [before] text) [word ++ after] =
        glue (glue [before] (glue text [word])) [after] := by
      rw [← glue_singleton_singleton word after, ← glue_assoc _ _ (cons_ne_nil _ _),
        glue_assoc [before] _ nonempty]
    rw [glue_append_left _ _ (by simp), glue_append_left _ _ (glue_ne_nil _ _), ← last,
      ← glue_append_right _ _ (by simp), singleton_append]
  rw [moved, original, append_cancel_left_eq, append_cancel_right_eq]
  constructor
  · intro equal
    exact glue_left_cancel (glue_ne_nil _ _) (glue_ne_nil _ _)
      (glue_right_cancel (glue_ne_nil _ _) (glue_ne_nil _ _) equal)
  · intro equal
    rw [equal]

/-- The lines of a text behind one another, with a separator between
neighbouring lines. -/
def joinLines (separator : α) (text : List (List α)) : List α :=
  [separator].intercalate text

section

variable (separator : α)

@[simp]
theorem joinLines_singleton (line : List α) : joinLines separator [line] = line := by
  simp [joinLines]

theorem joinLines_cons_cons (line next : List α) (rest : List (List α)) :
    joinLines separator (line :: next :: rest) =
      line ++ separator :: joinLines separator (next :: rest) := by
  simp [joinLines]

/-- Extending the first line extends the flat text at its front. -/
theorem joinLines_append_cons (before after : List α) (below : List (List α)) :
    joinLines separator ((before ++ after) :: below) =
      before ++ joinLines separator (after :: below) := by
  cases below with
  | nil => simp
  | cons next below => simp [joinLines_cons_cons]

/-- The flat reading of a text split at a position inside one of its lines. -/
theorem joinLines_split (above : List (List α)) (before after : List α) (below : List (List α)) :
    joinLines separator (above ++ (before ++ after) :: below) =
      joinLines separator (above ++ [before]) ++ joinLines separator (after :: below) := by
  induction above with
  | nil => simp [joinLines_append_cons]
  | cons line above ih =>
    cases above with
    | nil => simp [joinLines_cons_cons, joinLines_append_cons]
    | cons next above =>
      simp only [cons_append, joinLines_cons_cons] at ih ⊢
      rw [ih]
      simp

/-- A line break at the end of a text is a separator at the end of its flat
reading. -/
theorem joinLines_concat_nil (above : List (List α)) (line : List α) :
    joinLines separator (above ++ [line, []]) =
      joinLines separator (above ++ [line]) ++ [separator] := by
  induction above with
  | nil => simp [joinLines_cons_cons]
  | cons first above ih =>
    cases above with
    | nil => simp [joinLines_cons_cons]
    | cons next above =>
      simp only [cons_append, joinLines_cons_cons] at ih ⊢
      rw [ih]
      simp

/-- The last line stands behind a separator. -/
theorem joinLines_concat_concat (above : List (List α)) (line last : List α) :
    joinLines separator (above ++ [line] ++ [last]) =
      joinLines separator (above ++ [line]) ++ separator :: last := by
  have split := joinLines_split separator (above ++ [line]) [] last []
  rw [nil_append, joinLines_singleton, append_assoc above [line] [[]]] at split
  rw [split, singleton_append, joinLines_concat_nil, append_assoc, singleton_append]

/-- Gluing two texts puts their flat readings behind one another. -/
theorem joinLines_glue (firstNonempty : first ≠ []) (secondNonempty : second ≠ []) :
    joinLines separator (glue first second) =
      joinLines separator first ++ joinLines separator second := by
  rcases eq_nil_or_concat' first with rfl | ⟨above, before, rfl⟩
  · exact absurd rfl firstNonempty
  · cases second with
    | nil => exact absurd rfl secondNonempty
    | cons after below => rw [glue_concat_cons, joinLines_split]

end

end XEditor.Lines
