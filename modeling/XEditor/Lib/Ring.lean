/-!
# Ring buffers without a count

A ring of a fixed number of cells with two indices: `front`, the next cell to
read, and `tail`, the next cell to write.  There is no count and no test for a
full ring: the ring counts as empty when the two indices are equal.

The contents are stated by a relation, `Holds`, because a full ring and an
empty ring have the same indices.
-/

namespace XEditor

universe u

/-- A ring of `size` cells. -/
structure Ring (α : Type u) (size : Nat) where
  cells : Vector α size
  front : Fin size
  tail : Fin size

namespace Ring

variable {α : Type u} {size : Nat}

/-- The index behind an index. -/
def next (index : Fin size) : Fin size :=
  if inside : index.val + 1 < size then ⟨index.val + 1, inside⟩ else ⟨0, index.pos⟩

/-- Write a value at the tail. -/
def push (ring : Ring α size) (value : α) : Ring α size :=
  { ring with cells := ring.cells.set ring.tail value, tail := next ring.tail }

/-- Read the value at the front, unless the indices are equal. -/
def pop (ring : Ring α size) : Option α × Ring α size :=
  if ring.front = ring.tail then (none, ring)
  else (some (ring.cells.get ring.front), { ring with front := next ring.front })

/-- The cell a number of places behind the front. -/
def slot (ring : Ring α size) (offset : Nat) : Fin size :=
  ⟨(ring.front.val + offset) % size, Nat.mod_lt _ ring.front.pos⟩

/-- The ring holds a list of values, oldest first. -/
structure Holds (ring : Ring α size) (pending : List α) : Prop where
  fits : pending.length ≤ size
  cell : ∀ offset value, pending[offset]? = some value → ring.cells.get (ring.slot offset) = value
  tail : ring.tail = ring.slot pending.length

/-! ## Slots -/

theorem next_val (index : Fin size) : (next index).val = (index.val + 1) % size := by
  unfold next
  split
  · rename_i below
    exact (Nat.mod_eq_of_lt below).symm
  · have last : index.val + 1 = size := by omega
    simp [last]

section

variable (ring : Ring α size)

theorem next_slot (offset : Nat) : next (ring.slot offset) = ring.slot (offset + 1) := by
  apply Fin.ext
  rw [next_val]
  simp only [slot]
  rw [Nat.mod_add_mod, Nat.add_assoc]

@[simp]
theorem slot_zero : ring.slot 0 = ring.front := by
  simp [slot, Nat.mod_eq_of_lt ring.front.isLt]

theorem slot_val {offset : Nat} (below : offset < size) :
    (ring.slot offset).val = if ring.front.val + offset < size then ring.front.val + offset
      else ring.front.val + offset - size := by
  simp only [slot]
  split
  · rename_i noWrap
    exact Nat.mod_eq_of_lt noWrap
  · rw [Nat.mod_eq_sub_mod (by omega), Nat.mod_eq_of_lt (by omega)]

/-- Two cells less than one revolution behind the front are the same only at
the same offset. -/
theorem slot_inj {first second : Nat} (below : first < size) (alsoBelow : second < size)
    (same : ring.slot first = ring.slot second) : first = second := by
  have values := congrArg Fin.val same
  rw [ring.slot_val below, ring.slot_val alsoBelow] at values
  split at values <;> split at values <;> omega

theorem slot_size : ring.slot size = ring.front := by
  simp [slot, Nat.mod_eq_of_lt ring.front.isLt]

/-! ## Cells -/

theorem get_set_self (cells : Vector α size) (index : Fin size) (value : α) :
    (cells.set index value).get index = value :=
  Vector.getElem_set_self index.isLt

theorem get_set_of_ne (cells : Vector α size) {index other : Fin size} (apart : index ≠ other)
    (value : α) : (cells.set index value).get other = cells.get other :=
  Vector.getElem_set_ne index.isLt other.isLt fun same => apart (Fin.ext same)

/-! ## Pushing and popping -/

theorem holds_nil : ring.Holds [] ↔ ring.front = ring.tail := by
  refine ⟨fun holds => ?_, fun same => ⟨Nat.zero_le _, ?_, ?_⟩⟩
  · simpa using holds.tail.symm
  · intro offset value found
    simp at found
  · simpa using same.symm

end

variable {ring : Ring α size} {pending : List α}

/-- A value pushed on a ring that is not full is the newest one. -/
theorem Holds.push (holds : ring.Holds pending) (room : pending.length < size) (value : α) :
    (ring.push value).Holds (pending ++ [value]) := by
  have sameSlot : ∀ offset, (ring.push value).slot offset = ring.slot offset := fun _ => rfl
  refine ⟨by simp; omega, ?_, ?_⟩
  · intro offset stored found
    rw [sameSlot]
    by_cases inside : offset < pending.length
    · rw [List.getElem?_append_left inside] at found
      have other : ring.tail ≠ ring.slot offset := by
        rw [holds.tail]
        intro same
        exact absurd (ring.slot_inj room (by omega) same) (by omega)
      rw [← holds.cell offset stored found]
      exact get_set_of_ne ring.cells other value
    · have atEnd : offset = pending.length := by
        have bound := (List.getElem?_eq_some_iff.mp found).1
        simp only [List.length_append, List.length_singleton] at bound
        omega
      subst atEnd
      rw [List.getElem?_concat_length] at found
      cases found
      rw [← holds.tail]
      exact get_set_self ring.cells ring.tail value
  · rw [sameSlot, List.length_append, List.length_singleton, ← next_slot, ← holds.tail]
    rfl

/-- The oldest value of a ring that is not full is popped, and only it. -/
theorem Holds.pop {oldest : α} {rest : List α} (holds : ring.Holds (oldest :: rest))
    (room : rest.length + 1 < size) :
    ∃ after : Ring α size, ring.pop = (some oldest, after) ∧ after.Holds rest := by
  have apart : ring.front ≠ ring.tail := by
    rw [holds.tail, ← slot_zero]
    intro same
    exact absurd (ring.slot_inj (by omega) room same) (by simp)
  have read : ring.cells.get ring.front = oldest := by
    rw [← slot_zero]
    exact holds.cell 0 oldest rfl
  refine ⟨{ ring with front := next ring.front }, ?_, ?_⟩
  · rw [Ring.pop, if_neg apart, read]
  have moved : ∀ offset, slot { ring with front := next ring.front } offset =
      ring.slot (offset + 1) := by
    intro offset
    apply Fin.ext
    simp only [slot, next_val]
    rw [Nat.mod_add_mod, Nat.add_assoc, Nat.add_comm 1 offset]
  refine ⟨by omega, ?_, ?_⟩
  · intro offset value found
    rw [moved]
    exact holds.cell (offset + 1) value found
  · rw [moved]
    exact holds.tail

/-- What a pop reads when values are pushed between its test and its read. -/
def popDuring (ring : Ring α size) (pushed : List α) : Option α × Ring α size :=
  let later := pushed.foldl Ring.push ring
  if ring.front = ring.tail then (none, later)
  else (some (later.cells.get later.front), { later with front := next later.front })

/-- Pushing does not move the front. -/
theorem foldl_push_front (ring : Ring α size) (pushed : List α) :
    (pushed.foldl Ring.push ring).front = ring.front := by
  induction pushed generalizing ring with
  | nil => rfl
  | cons value pushed ih => exact ih (ring.push value)

/-- Pushing and moving the front commute. -/
theorem foldl_push_moved (ring : Ring α size) (pushed : List α) (front : Fin size) :
    pushed.foldl Ring.push { ring with front } = { pushed.foldl Ring.push ring with front } := by
  induction pushed generalizing ring with
  | nil => rfl
  | cons value pushed ih => exact ih (ring.push value)

section

variable (holds : ring.Holds pending) {pushed : List α}
  (room : pending.length + pushed.length ≤ size)
include holds room

theorem Holds.foldl_push : (pushed.foldl Ring.push ring).Holds (pending ++ pushed) := by
  induction pushed generalizing ring pending with
  | nil => simpa using holds
  | cons value pushed ih =>
    rw [List.length_cons] at room
    have pushedOne := holds.push (by omega) value
    simpa using ih pushedOne (by simp; omega)

/-- Values pushed in the middle of a pop come behind it, as long as they fit
into the ring together with the value being popped. -/
theorem Holds.popDuring :
    ring.popDuring pushed = ((ring.pop).1, pushed.foldl Ring.push (ring.pop).2) := by
  rw [Ring.popDuring, Ring.pop]
  by_cases same : ring.front = ring.tail
  · rw [if_pos same, if_pos same]
  rw [if_neg same, if_neg same]
  cases pending with
  | nil => exact absurd ((holds_nil ring).mp holds) same
  | cons oldest rest =>
    have before := holds.cell 0 oldest rfl
    have after := (holds.foldl_push room).cell 0 oldest rfl
    rw [slot_zero] at before after
    rw [foldl_push_front] at after
    simp only [before, after, foldl_push_moved, foldl_push_front]

end

/-- Popping does nothing when the ring is empty, and nothing when it is full. -/
theorem Holds.pop_none (holds : ring.Holds pending)
    (extreme : pending = [] ∨ pending.length = size) :
    ring.pop = (none, ring) := by
  have same : ring.front = ring.tail := by
    rw [holds.tail]
    rcases extreme with empty | full
    · simp [empty]
    · rw [full, slot_size]
  rw [Ring.pop, if_pos same]

/-- A full ring of at least two cells does not hold one value less. -/
theorem Holds.not_of_full {pending fewer : List α} (holds : ring.Holds pending)
    (full : pending.length = size) (less : fewer.length + 1 = size) (two : 1 < size) :
    ¬ ring.Holds fewer := by
  intro alsoHolds
  have same := holds.tail.symm.trans alsoHolds.tail
  rw [full, slot_size, ← slot_zero] at same
  exact absurd (ring.slot_inj (by omega) (by omega) same) (by omega)

end Ring

end XEditor
