import Mathlib.Data.BitVec

/-!
# Disk blocks

A block is `BSIZE` bytes, here one number of 4096 bits in little-endian order.
The C code looks at the bytes of a block through pointers of several types; a
pointer to an array of cells of some width reads and writes these bits.
-/

namespace XEditor.Fs

/-- Source `BSIZE`. -/
def bsize : Nat := 512

/-- The contents of a block. -/
abbrev Block := BitVec 4096

namespace Block

/-- The cell at an index of the block as an array of cells. -/
def cell (width : Nat) (block : Block) (index : Nat) : BitVec width :=
  block.extractLsb' (width * index) width

/-- Write a cell. -/
def setCell {width : Nat} (block : Block) (index : Nat) (value : BitVec width) : Block :=
  (block &&& ~~~((BitVec.allOnes width).setWidth 4096 <<< (width * index))) |||
    (value.setWidth 4096 <<< (width * index))

theorem getLsbD_cell (width : Nat) (block : Block) (index bit : Nat) :
    (block.cell width index).getLsbD bit =
      (decide (bit < width) && block.getLsbD (width * index + bit)) := by
  rw [cell, BitVec.getLsbD_extractLsb']

variable {width : Nat}

theorem getLsbD_setCell (block : Block) (index : Nat) (value : BitVec width) {bit : Nat}
    (inside : bit < 4096) :
    (block.setCell index value).getLsbD bit =
      if width * index ≤ bit ∧ bit < width * index + width then value.getLsbD (bit - width * index)
      else block.getLsbD bit := by
  simp only [setCell, BitVec.getLsbD_or, BitVec.getLsbD_and, BitVec.getLsbD_not,
    BitVec.getLsbD_shiftLeft, BitVec.getLsbD_setWidth, BitVec.getLsbD_allOnes, inside,
    decide_true, Bool.true_and]
  by_cases before : bit < width * index
  · simp [before]
  by_cases here : bit < width * index + width
  · rw [if_pos (by omega)]
    have shifted : bit - width * index < width := by omega
    have short : bit - width * index < 4096 := by omega
    simp [before, shifted, short]
  · rw [if_neg (by omega)]
    have beyond : ¬ bit - width * index < width := by omega
    have zero : value.getLsbD (bit - width * index) = false :=
      BitVec.getLsbD_of_ge _ _ (by omega)
    simp [beyond, zero]

variable {index position : Nat}

theorem cell_setCell_self (block : Block) (inside : width * index + width ≤ 4096)
    (value : BitVec width) : (block.setCell index value).cell width index = value := by
  apply BitVec.eq_of_getLsbD_eq
  intro bit bound
  rw [getLsbD_cell, getLsbD_setCell _ _ _ (by omega)]
  simp [bound]

/-- A cell that does not overlap the one written keeps its value. -/
theorem cell_setCell_of_disjoint {other : Nat} (block : Block)
    (inside : other * position + other ≤ 4096)
    (disjoint : other * position + other ≤ width * index ∨ width * index + width ≤ other * position)
    (value : BitVec width) :
    (block.setCell index value).cell other position = block.cell other position := by
  apply BitVec.eq_of_getLsbD_eq
  intro bit bound
  rw [getLsbD_cell, getLsbD_cell, getLsbD_setCell _ _ _ (by omega), if_neg (by omega)]

theorem cell_setCell_of_ne (block : Block) (inside : width * position + width ≤ 4096)
    (different : position ≠ index) (value : BitVec width) :
    (block.setCell index value).cell width position = block.cell width position := by
  apply cell_setCell_of_disjoint block inside
  rcases Nat.lt_or_gt_of_ne different with before | behind
  · left
    exact Nat.mul_le_mul_left _ before
  · right
    exact Nat.mul_le_mul_left _ behind

/-- Two blocks with the same cells are equal. -/
theorem ext_cell (width : Nat) (positive : 0 < width) {block block' : Block}
    (same : ∀ index, width * index < 4096 → block.cell width index = block'.cell width index) :
    block = block' := by
  apply BitVec.eq_of_getLsbD_eq
  intro bit bound
  have split := Nat.div_add_mod bit width
  have low := Nat.mod_lt bit positive
  have cells := congrArg (fun cell : BitVec width => cell.getLsbD (bit % width))
    (same (bit / width) (by omega))
  rwa [getLsbD_cell, getLsbD_cell, split, decide_eq_true low, Bool.true_and, Bool.true_and] at cells

/-! ## Words, halves and bytes -/

/-- A `uint` of the block. -/
def word (block : Block) (index : Nat) : BitVec 32 :=
  block.cell 32 index

def setWord (block : Block) (index : Nat) (value : BitVec 32) : Block :=
  block.setCell index value

/-- A `short` of the block. -/
def half (block : Block) (index : Nat) : BitVec 16 :=
  block.cell 16 index

def setHalf (block : Block) (index : Nat) (value : BitVec 16) : Block :=
  block.setCell index value

/-- A byte of the block. -/
def byte (block : Block) (index : Nat) : UInt8 :=
  UInt8.ofBitVec (block.cell 8 index)

def setByte (block : Block) (index : Nat) (value : UInt8) : Block :=
  block.setCell index value.toBitVec

/-- One bit. -/
def bit (block : Block) (index : Nat) : Bool :=
  block.getLsbD index

def setBit (block : Block) (index : Nat) (value : Bool) : Block :=
  block.setCell index (BitVec.ofBool value)

/-- A zeroed block. -/
def zero : Block := 0

/-- The words of a list from an index on. -/
def setWords (block : Block) (index : Nat) : List (BitVec 32) → Block
  | [] => block
  | value :: values => (block.setWord index value).setWords (index + 1) values

/-- The bytes from an offset on. -/
def bytes (block : Block) (offset count : Nat) : List UInt8 :=
  (List.range count).map fun index => block.byte (offset + index)

/-- Write bytes from an offset on. -/
def setBytes (block : Block) (offset : Nat) : List UInt8 → Block
  | [] => block
  | value :: values => (block.setByte offset value).setBytes (offset + 1) values

theorem word_zero (index : Nat) : zero.word index = 0 := by
  simp [zero, word, cell]

theorem bit_zero (index : Nat) : zero.bit index = false :=
  BitVec.getLsbD_zero

theorem half_zero : zero.half index = 0 := by
  simp [zero, half, cell]

variable (block : Block)

theorem word_setWord_self (inside : index < 128) (value : BitVec 32) :
    (block.setWord index value).word index = value :=
  cell_setCell_self block (by omega) value

theorem word_setWord_of_ne (inside : position < 128) (different : position ≠ index)
    (value : BitVec 32) : (block.setWord index value).word position = block.word position :=
  cell_setCell_of_ne block (by omega) different value

theorem word_setWord (inside : position < 128) (value : BitVec 32) :
    (block.setWord index value).word position =
      if position = index then value else block.word position := by
  split
  · rename_i same
    subst same
    exact word_setWord_self block inside value
  · rename_i different
    exact word_setWord_of_ne block inside different value

theorem byte_setByte (inside : position < 512) (value : UInt8) :
    (block.setByte index value).byte position =
      if position = index then value else block.byte position := by
  unfold byte setByte
  split
  · rename_i same
    subst same
    rw [cell_setCell_self block (by omega)]
  · rename_i different
    rw [cell_setCell_of_ne block (by omega) different]

theorem bit_setBit (inside : position < 4096) (value : Bool) :
    (block.setBit index value).bit position =
      if position = index then value else block.bit position := by
  unfold bit setBit
  rw [getLsbD_setCell _ _ _ inside, Nat.one_mul]
  by_cases same : position = index
  · subst same
    rw [if_pos (by omega), if_pos rfl, Nat.sub_self]
    cases value <;> rfl
  · rw [if_neg (by omega), if_neg same]

/-- A place after the first value has been written, and then the others behind it. -/
theorem overwritten_cons {α : Type} (value old : α) (values : List α) (index position : Nat) :
    (if index + 1 ≤ position then
      (values[position - (index + 1)]?).getD (if position = index then value else old)
      else if position = index then value else old) =
      if index ≤ position then ((value :: values)[position - index]?).getD old else old := by
  rcases Nat.lt_trichotomy position index with before | same | behind
  · rw [if_neg (by omega), if_neg (by omega), if_neg (by omega)]
  · subst same
    rw [if_neg (by omega), if_pos rfl, if_pos (le_refl _), Nat.sub_self]
    rfl
  · rw [if_pos (by omega), if_neg (by omega), if_pos (by omega),
      show position - index = position - (index + 1) + 1 by omega, List.getElem?_cons_succ]

theorem word_setWords (values : List (BitVec 32)) (inside : position < 128) :
    (block.setWords index values).word position =
      if index ≤ position then (values[position - index]?).getD (block.word position)
      else block.word position := by
  induction values generalizing block index with
  | nil => simp [setWords]
  | cons value values ih =>
    rw [setWords, ih, word_setWord block inside, overwritten_cons]

theorem byte_setBytes {offset position : Nat} (values : List UInt8) (inside : position < 512) :
    (block.setBytes offset values).byte position =
      if offset ≤ position then (values[position - offset]?).getD (block.byte position)
      else block.byte position := by
  induction values generalizing block offset with
  | nil => simp [setBytes]
  | cons value values ih =>
    rw [setBytes, ih, byte_setByte block inside, overwritten_cons]

end Block

end XEditor.Fs
