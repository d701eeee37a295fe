import Mathlib.Data.List.TakeWhile

/-!
# Path names

`skipelem` of `fs.c` and the sequence of path elements that iterating it
yields.  Paths and names are the bytes of a C string before its NUL; a name in
a directory entry is padded with NULs to `DIRSIZ` bytes, which are left out.
-/

namespace XEditor.Kernel

open List Option

abbrev Path := List UInt8

abbrev Name := List UInt8

def slash : UInt8 := 47

/-- Source `DIRSIZ`. -/
def dirsiz : Nat := 14

/-- Source `skipelem`: the next element of a path, cut to `DIRSIZ` bytes, and
the rest of the path without its leading slashes. -/
def skipelem (path : Path) : Option (Name × Path) :=
  match path.dropWhile (· == slash) with
  | [] => none
  | byte :: path =>
    some (((byte :: path).takeWhile (· != slash)).take dirsiz,
      ((byte :: path).dropWhile (· != slash)).dropWhile (· == slash))

/-- The elements of a path in order, found by iterating `skipelem`. -/
def elementsLoop : Nat → Path → List Name
  | 0, _ => []
  | fuel + 1, path =>
    match skipelem path with
    | none => []
    | some (name, rest) => name :: elementsLoop fuel rest

/-- Every call of `skipelem` consumes a byte, so the length of the path bounds
their number. -/
def elements (path : Path) : List Name :=
  elementsLoop path.length path

variable {name : Name}

variable {path rest : Path}

theorem skipelem_length (skipped : skipelem path = some (name, rest)) :
    rest.length < path.length := by
  have leading := length_dropWhile_le (· == slash) path
  unfold skipelem at skipped
  split at skipped
  · contradiction
  rename_i byte tail dropped
  rw [some.injEq, Prod.mk.injEq] at skipped
  -- The first byte left is not a slash, so the element takes it.
  have notSlash : (byte == slash) = false := by
    have := head_dropWhile_not (· == slash) (l := path) (by rw [dropped]; simp)
    simpa [dropped] using this
  have taken : ((byte :: tail).dropWhile (· != slash)).length ≤ tail.length := by
    rw [dropWhile_cons_of_pos (by simp [bne, notSlash])]
    exact length_dropWhile_le _ _
  have trailing := length_dropWhile_le (· == slash) ((byte :: tail).dropWhile (· != slash))
  rw [dropped, length_cons] at leading
  rw [← skipped.2]
  omega

/-- Fuel beyond the length of the path does not matter. -/
theorem elementsLoop_congr {fuel fuel' : Nat} (enough : path.length ≤ fuel)
    (enough' : path.length ≤ fuel') : elementsLoop fuel path = elementsLoop fuel' path := by
  have empty (fuel : Nat) : elementsLoop fuel [] = [] := by
    cases fuel <;> rfl
  induction fuel generalizing path fuel' with
  | zero => rw [length_eq_zero_iff.mp (Nat.le_zero.mp enough), empty, empty]
  | succ fuel ih =>
    cases fuel' with
    | zero => rw [length_eq_zero_iff.mp (Nat.le_zero.mp enough'), empty, empty]
    | succ fuel' =>
      rw [elementsLoop, elementsLoop]
      cases skipped : skipelem path with
      | none => rfl
      | some next =>
        have shorter := skipelem_length skipped
        have rest : elementsLoop fuel next.2 = elementsLoop fuel' next.2 :=
          ih (by omega) (by omega)
        simp only
        rw [rest]

theorem elements_eq_nil (skipped : skipelem path = none) : elements path = [] := by
  rw [elements]
  cases path.length with
  | zero => rfl
  | succ fuel => rw [elementsLoop, skipped]

theorem elements_eq_cons (skipped : skipelem path = some (name, rest)) :
    elements path = name :: elements rest := by
  have shorter := skipelem_length skipped
  cases length : path.length with
  | zero => omega
  | succ fuel =>
    rw [elements, length, elementsLoop, skipped]
    simp only
    rw [elements, elementsLoop_congr (by omega) (Nat.le_refl _)]

/-- The rest of a path starts with an element, or is empty. -/
theorem elements_rest_eq_nil_iff (skipped : skipelem path = some (name, rest)) :
    elements rest = [] ↔ rest = [] := by
  unfold skipelem at skipped
  split at skipped
  · contradiction
  rename_i byte tail dropped
  rw [some.injEq, Prod.mk.injEq] at skipped
  constructor
  · intro noElements
    cases rest with
    | nil => rfl
    | cons first others =>
      have notSlash : (first == slash) = false := by
        have := head_dropWhile_not (· == slash)
          (l := (byte :: tail).dropWhile (· != slash)) (by rw [skipped.2]; simp)
        simpa [skipped.2] using this
      have next : skipelem (first :: others) =
          some (((first :: others).takeWhile (· != slash)).take dirsiz,
            ((first :: others).dropWhile (· != slash)).dropWhile (· == slash)) := by
        rw [skipelem, dropWhile_cons_of_neg (by simp [notSlash])]
      rw [elements_eq_cons next] at noElements
      contradiction
  · rintro rfl
    rfl

/-- The names a directory entry can have: not empty, without a slash and of at
most `DIRSIZ` bytes. -/
def IsEntryName (name : Name) : Prop :=
  name ≠ [] ∧ slash ∉ name ∧ name.length ≤ dirsiz

instance (name : Name) : Decidable (IsEntryName name) :=
  inferInstanceAs (Decidable (_ ∧ _ ∧ _))

variable (entry : IsEntryName name)

include entry

/-- No byte of an entry's name is a slash. -/
theorem IsEntryName.plain : ∀ byte ∈ name, (byte != slash) = true := by
  intro byte mem
  rw [bne_iff_ne]
  rintro rfl
  exact entry.2.1 mem

theorem IsEntryName.dropWhile_append (rest : Path) :
    (name ++ rest).dropWhile (· == slash) = name ++ rest := by
  obtain ⟨byte, others, rfl⟩ := exists_cons_of_ne_nil entry.1
  apply dropWhile_cons_of_neg
  have notSlash := entry.plain byte mem_cons_self
  simpa [bne] using notSlash

/-- The first element of a path that starts with the name of an entry. -/
theorem skipelem_append (rest : Path) :
    skipelem (name ++ rest) =
      some ((name ++ rest.takeWhile (· != slash)).take dirsiz,
        (rest.dropWhile (· != slash)).dropWhile (· == slash)) := by
  have split : skipelem (name ++ rest) = some (((name ++ rest).takeWhile (· != slash)).take dirsiz,
      ((name ++ rest).dropWhile (· != slash)).dropWhile (· == slash)) := by
    rw [skipelem, entry.dropWhile_append]
    obtain ⟨byte, others, rfl⟩ := exists_cons_of_ne_nil entry.1
    rfl
  rw [split, takeWhile_append_of_pos entry.plain, dropWhile_append_of_pos entry.plain]

/-- The name of an entry is a path of one element. -/
theorem skipelem_entryName : skipelem name = some (name, []) := by
  have first := skipelem_append entry []
  rw [append_nil] at first
  rw [first, takeWhile_nil, append_nil, take_of_length_le entry.2.2]
  rfl

/-- A slash ends the first element. -/
theorem skipelem_entryName_slash (rest : Path) :
    skipelem (name ++ slash :: rest) = some (name, rest.dropWhile (· == slash)) := by
  rw [skipelem_append entry, takeWhile_cons_of_neg (by simp),
    dropWhile_cons_of_neg (by simp), append_nil, take_of_length_le entry.2.2,
    dropWhile_cons_of_pos (by simp)]

theorem elements_entryName : elements name = [name] := by
  rw [elements_eq_cons (skipelem_entryName entry)]
  rfl

end XEditor.Kernel
