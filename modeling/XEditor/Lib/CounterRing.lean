import Mathlib.Data.Nat.ModEq

/-!
# Ring buffers with free-running counters

A ring of a fixed number of cells with two counters: `nread`, the number of
values taken out, and `nwrite`, the number of values put in, both modulo a power
of two.  The counters are never reset; a counter is reduced modulo the number of
cells only when a cell is chosen.

When the number of cells divides the modulus of the counters, the cells that the
counters choose do not notice that the counters wrap around.
-/

namespace XEditor

universe u

/-- A ring of `size` cells with counters of `width` bits. -/
structure CounterRing (α : Type u) (size width : Nat) where
  cells : Vector α size
  nread : BitVec width
  nwrite : BitVec width

namespace CounterRing

variable {α : Type u} {size width : Nat} [NeZero size]

/-- The cell a counter chooses. -/
def slot (size : Nat) [NeZero size] {width : Nat} (count : BitVec width) : Fin size :=
  Fin.ofNat size count.toNat

/-- The test for a ring without a value. -/
def isEmpty (ring : CounterRing α size width) : Bool :=
  ring.nread == ring.nwrite

/-- The test for a ring without a free cell. -/
def isFull (ring : CounterRing α size width) : Bool :=
  ring.nwrite == ring.nread + BitVec.ofNat width size

/-- Put a value in. -/
def push (ring : CounterRing α size width) (value : α) : CounterRing α size width :=
  { ring with cells := ring.cells.set (slot size ring.nwrite) value
              nwrite := ring.nwrite + 1 }

/-- The value that is next to be taken out. -/
def front (ring : CounterRing α size width) : α :=
  ring.cells.get (slot size ring.nread)

/-- Take a value out. -/
def pop (ring : CounterRing α size width) : CounterRing α size width :=
  { ring with nread := ring.nread + 1 }

/-- The ring holds a list of values, oldest first. -/
structure Holds (ring : CounterRing α size width) (pending : List α) : Prop where
  fits : pending.length ≤ size
  cell : ∀ offset value, pending[offset]? = some value →
    ring.cells.get (slot size (ring.nread + BitVec.ofNat width offset)) = value
  counters : ring.nwrite = ring.nread + BitVec.ofNat width pending.length

/-! ## Slots -/

theorem slot_add_ofNat (divides : size ∣ 2 ^ width) (count : BitVec width) (offset : Nat) :
    (slot size (count + BitVec.ofNat width offset)).val = (count.toNat + offset) % size := by
  simp only [slot, Fin.val_ofNat, BitVec.toNat_add, BitVec.toNat_ofNat]
  rw [Nat.mod_mod_of_dvd _ divides, Nat.add_mod, Nat.mod_mod_of_dvd _ divides, ← Nat.add_mod]

/-- Two cells less than one revolution behind a counter are the same only at the
same offset. -/
theorem slot_add_inj (divides : size ∣ 2 ^ width) (count : BitVec width) {first second : Nat}
    (below : first < size) (alsoBelow : second < size)
    (same : slot size (count + BitVec.ofNat width first) =
      slot size (count + BitVec.ofNat width second)) : first = second := by
  have values := congrArg Fin.val same
  rw [slot_add_ofNat divides, slot_add_ofNat divides] at values
  have congruent : first ≡ second [MOD size] := Nat.ModEq.add_left_cancel' count.toNat values
  exact Nat.ModEq.eq_of_lt_of_lt congruent below alsoBelow

/-! ## The tests -/

theorem add_ofNat_eq_iff (count : BitVec width) {first second : Nat} (below : first < 2 ^ width)
    (alsoBelow : second < 2 ^ width) :
    count + BitVec.ofNat width first = count + BitVec.ofNat width second ↔ first = second := by
  rw [BitVec.add_right_inj]
  refine ⟨fun same => ?_, fun same => congrArg _ same⟩
  have values := congrArg BitVec.toNat same
  rwa [BitVec.toNat_ofNat, BitVec.toNat_ofNat, Nat.mod_eq_of_lt below,
    Nat.mod_eq_of_lt alsoBelow] at values

variable {ring : CounterRing α size width} {pending : List α}

section

variable (holds : ring.Holds pending) (room : size < 2 ^ width)
include holds room

theorem Holds.isEmpty_iff : ring.isEmpty = true ↔ pending = [] := by
  have fits := holds.fits
  have zero : ring.nread = ring.nread + BitVec.ofNat width 0 := by simp
  rw [isEmpty, beq_iff_eq, holds.counters, zero, BitVec.add_assoc, BitVec.ofNat_add_ofNat,
    add_ofNat_eq_iff _ (by omega) (by omega), Nat.zero_add, eq_comm, List.length_eq_zero_iff]

theorem Holds.isFull_iff : ring.isFull = true ↔ pending.length = size := by
  have fits := holds.fits
  rw [isFull, beq_iff_eq, holds.counters, add_ofNat_eq_iff _ (by omega) room]

/-- The counters differ by the number of values held. -/
theorem Holds.length_eq : pending.length = (ring.nwrite - ring.nread).toNat := by
  have fits := holds.fits
  rw [holds.counters, BitVec.add_comm, BitVec.add_sub_cancel, BitVec.toNat_ofNat,
    Nat.mod_eq_of_lt (by omega)]

end

/-! ## Putting in and taking out -/

theorem holds_nil (ring : CounterRing α size width) (same : ring.nwrite = ring.nread) :
    ring.Holds [] where
  fits := Nat.zero_le _
  cell := by
    intro offset value found
    cases found
  counters := by simpa using same

/-- A value put in is the newest one. -/
theorem Holds.push (holds : ring.Holds pending) (divides : size ∣ 2 ^ width)
    (room : pending.length < size) (value : α) : (ring.push value).Holds (pending ++ [value]) where
  fits := by
    rw [List.length_append, List.length_singleton]
    omega
  cell := by
    intro offset stored found
    have written : (ring.push value).nread = ring.nread := rfl
    rw [written]
    by_cases inside : offset < pending.length
    · rw [List.getElem?_append_left inside] at found
      have apart : slot size ring.nwrite ≠ slot size (ring.nread + BitVec.ofNat width offset) := by
        rw [holds.counters]
        intro same
        exact absurd (slot_add_inj divides _ room (by omega) same) (by omega)
      rw [← holds.cell offset stored found]
      exact Vector.getElem_set_ne (slot size ring.nwrite).isLt _ fun same => apart (Fin.ext same)
    · have bound := (List.getElem?_eq_some_iff.mp found).1
      rw [List.length_append, List.length_singleton] at bound
      obtain rfl : offset = pending.length := by omega
      rw [List.getElem?_concat_length] at found
      cases found
      rw [← holds.counters]
      exact Vector.getElem_set_self (slot size ring.nwrite).isLt
  counters := by
    have written : (ring.push value).nread = ring.nread := rfl
    rw [written, List.length_append, List.length_singleton, ← BitVec.ofNat_add_ofNat,
      ← BitVec.add_assoc, ← holds.counters]
    rfl

variable {oldest : α} (holds : ring.Holds (oldest :: pending))
include holds

/-- The value taken out is the oldest one. -/
theorem Holds.front_eq : ring.front = oldest := by
  have read := holds.cell 0 oldest rfl
  rwa [BitVec.add_zero] at read

theorem Holds.pop :
    ring.pop.Holds pending where
  fits := Nat.le_of_succ_le holds.fits
  cell := by
    intro offset value found
    rw [← holds.cell (offset + 1) value found, Nat.add_comm, ← BitVec.ofNat_add_ofNat,
      ← BitVec.add_assoc]
    rfl
  counters := by
    have later : ring.pop.nread = ring.nread + BitVec.ofNat width 1 := rfl
    rw [later, BitVec.add_assoc, BitVec.ofNat_add_ofNat, Nat.add_comm]
    exact holds.counters

end CounterRing

end XEditor
