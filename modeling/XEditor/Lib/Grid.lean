import Mathlib.Algebra.Ring.Nat

/-!
# Rectangles of cells and memories written cell by cell

The integers of a half-open range, the cells of a rectangle in row order, a
memory after a list of writes, and blocks of addresses that may wrap around.
-/

namespace XEditor.Grid

open List hiding span

universe u v w

/-- The integers from `first` up to, but not including, `last`. -/
def span (first last : Int) : List Int :=
  (List.range (last - first).toNat).map fun offset : Nat => first + offset

@[simp]
theorem mem_span {first last n : Int} : n ∈ span first last ↔ first ≤ n ∧ n < last := by
  simp only [span, mem_map, mem_range]
  constructor
  · omega
  · rintro ⟨low, high⟩
    exact ⟨(n - first).toNat, by omega, by omega⟩

/-- The cells of a rectangle, row by row. -/
def cells (left right top bottom : Int) : List (Int × Int) :=
  (span top bottom).flatMap fun y => (span left right).map fun x => (x, y)

@[simp]
theorem mem_cells {left right top bottom x y : Int} :
    (x, y) ∈ cells left right top bottom ↔
      (left ≤ x ∧ x < right) ∧ top ≤ y ∧ y < bottom := by
  simp only [cells, mem_flatMap, mem_map, mem_span, Prod.mk.injEq]
  constructor
  · rintro ⟨row, rowInside, column, columnInside, rfl, rfl⟩
    exact ⟨columnInside, rowInside⟩
  · rintro ⟨columnInside, rowInside⟩
    exact ⟨y, rowInside, x, columnInside, rfl, rfl⟩

theorem pairwise_span (first last : Int) : (span first last).Pairwise (· < ·) := by
  rw [span, pairwise_map]
  exact List.pairwise_lt_range.imp fun less => by omega

/-- The order in which `cells` visits the cells. -/
def Before (first second : Int × Int) : Prop :=
  first.2 < second.2 ∨ first.2 = second.2 ∧ first.1 < second.1

theorem Before.asymm {first second : Int × Int} (before : Before first second) :
    ¬ Before second first := by
  simp only [Before] at before ⊢
  omega

theorem pairwise_cells (left right top bottom : Int) :
    (cells left right top bottom).Pairwise Before := by
  rw [cells, pairwise_flatMap]
  constructor
  · intro y _
    rw [pairwise_map]
    exact (pairwise_span left right).imp fun less => .inr ⟨rfl, less⟩
  · apply (pairwise_span top bottom).imp
    intro y later less first isFirst second isSecond
    obtain ⟨x, -, rfl⟩ := mem_map.mp isFirst
    obtain ⟨x', -, rfl⟩ := mem_map.mp isSecond
    exact .inl less

/-! ## Memories -/

variable {ι : Type u} {α : Type v} [DecidableEq ι]

/-- A memory after a list of writes, each to one address. -/
def write (memory : ι → α) (writes : List (ι × α)) : ι → α :=
  writes.foldl (fun memory entry address => if address = entry.1 then entry.2 else memory address)
    memory

theorem write_cons (memory : ι → α) (entry : ι × α) (writes : List (ι × α)) :
    write memory (entry :: writes) =
      write (fun address => if address = entry.1 then entry.2 else memory address) writes :=
  rfl

variable {writes : List (ι × α)}

/-- An address that is not written keeps its value. -/
theorem write_of_untouched {address : ι} (untouched : ∀ entry ∈ writes, entry.1 ≠ address)
    (memory : ι → α) : write memory writes address = memory address := by
  induction writes generalizing memory with
  | nil => rfl
  | cons entry writes ih =>
    have apart := untouched entry mem_cons_self
    rw [write_cons, ih fun later member => untouched later (mem_cons_of_mem entry member)]
    exact if_neg (Ne.symm apart)

/-- An address whose writes all agree has the value they write. -/
theorem write_of_agree {address : ι} {value : α} (touched : ∃ entry ∈ writes, entry.1 = address)
    (agree : ∀ entry ∈ writes, entry.1 = address → entry.2 = value) (memory : ι → α) :
    write memory writes address = value := by
  induction writes generalizing memory with
  | nil =>
    obtain ⟨entry, member, -⟩ := touched
    cases member
  | cons entry writes ih =>
    have agreeLater : ∀ later ∈ writes, later.1 = address → later.2 = value :=
      fun later member => agree later (mem_cons_of_mem entry member)
    rw [write_cons]
    by_cases touchedLater : ∃ later ∈ writes, later.1 = address
    · exact ih touchedLater agreeLater _
    -- Only the first write goes to the address.
    have untouched : ∀ later ∈ writes, later.1 ≠ address :=
      fun later member same => touchedLater ⟨later, member, same⟩
    obtain ⟨first, member, same⟩ := touched
    rw [write_of_untouched untouched]
    rcases mem_cons.mp member with rfl | later
    · rw [if_pos same.symm]
      exact agree first mem_cons_self same
    · exact absurd same (untouched first later)

/-! ## Writes in the order of the positions they come from -/

section

variable {π : Type w} {order : π → π → Prop} {positions : List π} {step : π → Option (ι × α)}
  {address : ι}

/-- `position` is the last of the positions that writes to the address. -/
structure LastWrite (order : π → π → Prop) (positions : List π) (step : π → Option (ι × α))
    (address : ι) (value : α) (position : π) : Prop where
  visited : position ∈ positions
  writes : step position = some (address, value)
  later : ∀ next ∈ positions, order position next → ∀ other, step next ≠ some (address, other)

variable (sorted : positions.Pairwise order)

include sorted

theorem LastWrite.write_eq {value : α} {position : π}
    (last : LastWrite order positions step address value position) (memory : ι → α) :
    write memory (positions.filterMap step) address = value := by
  induction positions generalizing memory with
  | nil => cases last.visited
  | cons first positions ih =>
    rw [pairwise_cons] at sorted
    rcases mem_cons.mp last.visited with rfl | visited
    · rw [filterMap_cons_some last.writes, write_cons, write_of_untouched]
      · exact if_pos rfl
      · intro entry member same
        obtain ⟨next, isNext, writes⟩ := mem_filterMap.mp member
        subst same
        exact last.later next (mem_cons_of_mem _ isNext) (sorted.1 next isNext) entry.2 writes
    · have lastOfRest : LastWrite order positions step address value position :=
        ⟨visited, last.writes, fun next isNext => last.later next (mem_cons_of_mem first isNext)⟩
      cases writes : step first with
      | none =>
        rw [filterMap_cons_none writes]
        exact ih sorted.2 lastOfRest memory
      | some entry =>
        rw [filterMap_cons_some writes, write_cons]
        exact ih sorted.2 lastOfRest _

omit [DecidableEq ι] in
/-- If a position writes to the address, there is a last one. -/
theorem exists_lastWrite (asymm : ∀ first second, order first second → ¬ order second first)
    (touched : ∃ position ∈ positions, ∃ value, step position = some (address, value)) :
    ∃ value position, LastWrite order positions step address value position := by
  induction positions with
  | nil =>
    obtain ⟨position, visited, -⟩ := touched
    cases visited
  | cons first positions ih =>
    rw [pairwise_cons] at sorted
    by_cases touchedLater : ∃ position ∈ positions, ∃ value, step position = some (address, value)
    · obtain ⟨value, position, last⟩ := ih sorted.2 touchedLater
      refine ⟨value, position, mem_cons_of_mem first last.visited, last.writes, ?_⟩
      intro next isNext after
      rcases mem_cons.mp isNext with rfl | isNext
      · exact absurd after (asymm _ _ (sorted.1 position last.visited))
      · exact last.later next isNext after
    · obtain ⟨position, visited, value, writes⟩ := touched
      obtain rfl : position = first := by
        rcases mem_cons.mp visited with same | later
        · exact same
        · exact absurd ⟨position, later, value, writes⟩ touchedLater
      refine ⟨value, position, visited, writes, ?_⟩
      intro next isNext after other writesNext
      rcases mem_cons.mp isNext with rfl | isNext
      · exact asymm _ _ after after
      · exact touchedLater ⟨next, isNext, other, writesNext⟩

end

/-! ## Blocks of addresses -/

section

variable {width : Nat}

/-- A number of consecutive addresses, wrapping around at the last one. -/
def block (base : BitVec width) (length : Nat) : List (BitVec width) :=
  (List.range length).map fun offset => base + BitVec.ofNat width offset

@[simp]
theorem mem_block {base address : BitVec width} {length : Nat} :
    address ∈ block base length ↔
      ∃ offset < length, address = base + BitVec.ofNat width offset := by
  simp only [block, mem_map, mem_range, eq_comm]

/-- A block lies below a limit if and only if it is empty or its end, computed
without wrap-around, does not exceed the limit. -/
theorem block_inside_iff {base limit : BitVec width} {length : Nat} :
    (∀ address ∈ block base length, address < limit) ↔
      length = 0 ∨ base.toNat + length ≤ limit.toNat := by
  have limitBound := limit.isLt
  constructor
  · intro below
    by_contra outside
    -- The block starts behind the limit or reaches it.
    have reached := below (base + BitVec.ofNat width (limit.toNat - base.toNat))
      (mem_block.mpr ⟨limit.toNat - base.toNat, ?_, rfl⟩)
    · rw [BitVec.lt_def, BitVec.toNat_add, BitVec.toNat_ofNat, Nat.add_mod_mod,
        Nat.mod_eq_of_lt (by have baseBound := base.isLt; omega)] at reached
      omega
    · omega
  · rintro (rfl | fits) address member
    · simp at member
    obtain ⟨offset, inside, rfl⟩ := mem_block.mp member
    rw [BitVec.lt_def, BitVec.toNat_add, BitVec.toNat_ofNat, Nat.add_mod_mod,
      Nat.mod_eq_of_lt (by omega)]
    omega

/-- A block whose end, computed with wrap-around, is within a limit lies below the
limit if and only if it is empty or does not wrap around. -/
theorem block_below_iff {base limit : BitVec width} {length : Nat}
    (ends : base + BitVec.ofNat width length ≤ limit) :
    (∀ address ∈ block base length, address < limit) ↔
      length = 0 ∨ base.toNat + length < 2 ^ width := by
  have limitBound := limit.isLt
  rw [BitVec.le_def, BitVec.toNat_add, BitVec.toNat_ofNat, Nat.add_mod_mod] at ends
  have fits_iff : base.toNat + length ≤ limit.toNat ↔ base.toNat + length < 2 ^ width := by
    constructor
    · omega
    · intro fits
      rwa [Nat.mod_eq_of_lt fits] at ends
  rw [block_inside_iff, fits_iff]

end

end XEditor.Grid
