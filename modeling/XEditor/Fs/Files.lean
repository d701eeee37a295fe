import Mathlib.Data.List.GetD
import XEditor.Fs.Layout
import XEditor.Lib.Ownership

/-!
# Which block holds what

The inodes and the blocks of a volume, apart from where the inodes are stored.  An
inode has 253 places for the number of a block: the direct ones, the one of the
indirect block, and those inside the indirect block.  The places of all
inodes own the used blocks.  `mkfs` changes a volume by taking a block for a place and
by writing to the block of a place.
-/

namespace XEditor.Fs

open List Option Function Block

/-- The place of a block of a file.  The indirect block has the place after the direct
ones. -/
def placeOf (bn : Nat) : Nat :=
  if bn < ndirect then bn else bn + 1

theorem placeOf_ne (bn : Nat) : placeOf bn ≠ 124 := by
  unfold placeOf ndirect
  split <;> omega

theorem placeOf_injective : Function.Injective placeOf := by
  intro first second same
  unfold placeOf ndirect at same
  split at same <;> split at same <;> omega

/-- The number of a block at a place of an inode, or zero. -/
def Dinode.address (dinode : Dinode) (block : Nat → Block) (place : Nat) : Nat :=
  if direct : place < 125 then (dinode.addrs ⟨place, direct⟩).toNat
  else if dinode.addrs 124 = 0 ∨ 253 ≤ place then 0
  else ((block (dinode.addrs 124).toNat).word (place - 125)).toNat

/-- The inodes and the blocks of a volume. -/
@[ext]
structure Files where
  node : Nat → Dinode
  block : Nat → Block

variable {place : Nat} {dinode : Dinode}

namespace Dinode

section

variable (dinode : Dinode) (block : Nat → Block)

theorem address_of_lt (direct : place < 125) :
    dinode.address block place = (dinode.addrs ⟨place, direct⟩).toNat :=
  dif_pos direct

theorem address_indirect : dinode.address block 124 = (dinode.addrs 124).toNat :=
  dif_pos (by decide)

theorem address_of_ge (indirect : 125 ≤ place) (inside : place < 253)
    (present : dinode.addrs 124 ≠ 0) :
    dinode.address block place = ((block (dinode.addrs 124).toNat).word (place - 125)).toNat := by
  have inside : ¬ (dinode.addrs 124 = 0 ∨ 253 ≤ place) := by
    rintro (absent | beyond)
    · exact present absent
    · omega
  rw [address, dif_neg (by omega), if_neg inside]

theorem address_eq_zero_of_absent (indirect : 125 ≤ place) (absent : dinode.addrs 124 = 0) :
    dinode.address block place = 0 := by
  rw [address, dif_neg (by omega), if_pos (.inl absent)]

theorem address_eq_zero_of_ge (beyond : 253 ≤ place) : dinode.address block place = 0 := by
  rw [address, dif_neg (by omega), if_pos (.inr beyond)]

end

theorem lt_of_address_ne_zero {block : Nat → Block} (present : dinode.address block place ≠ 0) :
    place < 253 := by
  by_contra outside
  exact present (address_eq_zero_of_ge _ _ (by omega))

/-- A place depends on its own number, or on the indirect block. -/
theorem address_congr {dinode dinode' : Dinode} {block block' : Nat → Block}
    (direct : ∀ inside : place < 125, dinode.addrs ⟨place, inside⟩ = dinode'.addrs ⟨place, inside⟩)
    (indirect : 125 ≤ place → dinode.addrs 124 = dinode'.addrs 124 ∧ (dinode.addrs 124 ≠ 0 →
      block (dinode.addrs 124).toNat = block' (dinode.addrs 124).toNat)) :
    dinode.address block place = dinode'.address block' place := by
  by_cases inside : place < 125
  · rw [address_of_lt _ _ inside, address_of_lt _ _ inside, direct inside]
  obtain ⟨same, blocks⟩ := indirect (by omega)
  by_cases absent : dinode.addrs 124 = 0
  · rw [address_eq_zero_of_absent _ _ (by omega) absent,
      address_eq_zero_of_absent _ _ (by omega) (same ▸ absent)]
  by_cases beyond : 253 ≤ place
  · rw [address_eq_zero_of_ge _ _ beyond, address_eq_zero_of_ge _ _ beyond]
  · rw [address_of_ge _ _ (by omega) (by omega) absent,
      address_of_ge _ _ (by omega) (by omega) (same ▸ absent), blocks absent, same]

end Dinode

variable {position bn size more : Nat}

namespace Files

/-- A place of an inode of the volume. -/
abbrev Place := Nat × Nat

/-- The number of the block at a place, or zero.  A free inode has no blocks. -/
def address (files : Files) (place : Place) : Nat :=
  if place.1 ≤ ninodes ∧ (files.node place.1).type ≠ 0 then
    (files.node place.1).address files.block place.2
  else 0

/-- An inode of the volume that is in use. -/
def Allocated (files : Files) (inum : Nat) : Prop :=
  inum ≤ ninodes ∧ (files.node inum).type ≠ 0

variable {files : Files} {inum other number : Nat} {used : Set Nat}

theorem address_of_allocated (allocated : files.Allocated inum) (place : Nat) :
    files.address (inum, place) = (files.node inum).address files.block place :=
  if_pos allocated

theorem address_of_free (free : ¬ files.Allocated inum) (place : Nat) :
    files.address (inum, place) = 0 :=
  if_neg free

theorem allocated_of_address_ne_zero {place : Place} (present : files.address place ≠ 0) :
    files.Allocated place.1 := by
  by_contra free
  exact present (if_neg free)

/-- An inode changes. -/
@[simps -fullyApplied]
def setNode (files : Files) (inum : Nat) (dinode : Dinode) : Files :=
  { files with node := Function.update files.node inum dinode }

/-- A block changes. -/
@[simps -fullyApplied]
def setBlock (files : Files) (number : Nat) (data : Block) : Files :=
  { files with block := Function.update files.block number data }

theorem address_setNode_of_ne (different : other ≠ inum) (place : Nat) :
    (files.setNode inum dinode).address (other, place) = files.address (other, place) := by
  unfold address
  rw [setNode_node, setNode_block, update_of_ne different]

/-- The byte of a file at a position. -/
def byteAt (files : Files) (inum position : Nat) : UInt8 :=
  (files.block (files.address (inum, placeOf (position / bsize)))).byte (position % bsize)

/-! ## Changes that keep the places -/

/-- A block that is no indirect block changes no place. -/
theorem address_setBlock (files : Files)
    (notIndirect : ∀ inum, files.address (inum, 124) ≠ 0 → files.address (inum, 124) ≠ number)
    (data : Block) : (files.setBlock number data).address = files.address := by
  funext ⟨inum, place⟩
  by_cases allocated : files.Allocated inum
  · have stillAllocated : (files.setBlock number data).Allocated inum := allocated
    rw [address_of_allocated stillAllocated, address_of_allocated allocated]
    refine Dinode.address_congr (fun _ => rfl) fun _ => ⟨rfl, fun present => ?_⟩
    have indirect := notIndirect inum
    rw [address_of_allocated allocated] at indirect
    exact update_of_ne (indirect fun zero => present (BitVec.eq_of_toNat_eq zero)) _ _
  · have stillFree : ¬ (files.setBlock number data).Allocated inum := allocated
    rw [address_of_free stillFree, address_of_free allocated]

/-- Fields of an inode other than the numbers of its blocks change no place. -/
theorem address_setNode (addrs : dinode.addrs = (files.node inum).addrs)
    (type : dinode.type = 0 ↔ (files.node inum).type = 0) :
    (files.setNode inum dinode).address = files.address := by
  funext ⟨other, place⟩
  by_cases same : other = inum
  · subst same
    by_cases allocated : files.Allocated other
    · have stillAllocated : (files.setNode other dinode).Allocated other := by
        refine ⟨allocated.1, ?_⟩
        rw [setNode_node, update_self]
        exact fun free => allocated.2 (type.mp free)
      rw [address_of_allocated stillAllocated, address_of_allocated allocated, setNode_node,
        update_self]
      exact Dinode.address_congr (fun _ => by rw [addrs]) fun _ => ⟨by rw [addrs], fun _ => rfl⟩
    · have stillFree : ¬ (files.setNode other dinode).Allocated other := by
        rintro ⟨inside, used⟩
        rw [setNode_node, update_self] at used
        exact allocated ⟨inside, fun free => used (type.mpr free)⟩
      rw [address_of_free stillFree, address_of_free allocated]
  · exact address_setNode_of_ne same place

theorem byteAt_setNode (address : (files.setNode inum dinode).address = files.address)
    (other position : Nat) :
    (files.setNode inum dinode).byteAt other position = files.byteAt other position := by
  rw [byteAt, byteAt, address, setNode_block]

/-! ## Taking a block for a place -/

/-- A direct place of an inode, or the one of its indirect block, gets a number. -/
def setAddr (files : Files) (inum : Nat) (index : Fin 125) (number : Nat) : Files :=
  files.setNode inum { files.node inum with
    addrs := Function.update (files.node inum).addrs index (BitVec.ofNat 32 number) }

/-- A place inside the indirect block of an inode gets a number. -/
def setEntry (files : Files) (inum index number : Nat) : Files :=
  files.setBlock (files.address (inum, 124))
    ((files.block (files.address (inum, 124))).setWord index (BitVec.ofNat 32 number))

theorem toNat_ofNat_of_lt (small : number < 2 ^ 32) : (BitVec.ofNat 32 number).toNat = number := by
  rw [BitVec.toNat_ofNat, Nat.mod_eq_of_lt small]

theorem address_setAddr {index : Fin 125} (allocated : files.Allocated inum)
    (empty : files.address (inum, index) = 0) (small : number < 2 ^ 32)
    (zeroed : files.block number = zero) :
    (files.setAddr inum index number).address =
      update files.address (inum, index) number := by
  have stillAllocated : (files.setAddr inum index number).Allocated inum := by
    refine ⟨allocated.1, ?_⟩
    rw [setAddr, setNode_node, update_self]
    exact allocated.2
  funext ⟨other, place⟩
  by_cases same : other = inum
  · subst same
    rw [address_of_allocated stillAllocated]
    rw [setAddr, setNode_node, setNode_block, update_self]
    by_cases direct : place < 125
    · rw [Dinode.address_of_lt _ _ direct]
      dsimp only
      by_cases isIndex : (⟨place, direct⟩ : Fin 125) = index
      · subst isIndex
        rw [update_self, update_self, toNat_ofNat_of_lt small]
      rw [update_of_ne isIndex, update_of_ne,
        address_of_allocated allocated, Dinode.address_of_lt _ _ direct]
      intro samePlace
      exact isIndex (Fin.ext (Prod.ext_iff.mp samePlace).2)
    · have different : (other, place) ≠ (other, index.val) := by
        intro samePlace
        have := (Prod.ext_iff.mp samePlace).2
        omega
      rw [update_of_ne different, address_of_allocated allocated]
      by_cases isIndirect : index = 124
      · -- the new indirect block is empty, and there was none before
        subst isIndirect
        have absent : (files.node other).addrs 124 = 0 := by
          rw [address_of_allocated allocated] at empty
          exact BitVec.eq_of_toNat_eq ((Dinode.address_indirect _ files.block).symm.trans empty)
        rw [Dinode.address_eq_zero_of_absent _ _ (by omega) absent, Dinode.address, dif_neg direct]
        split
        · rfl
        · dsimp only
          rw [update_self, toNat_ofNat_of_lt small, zeroed, word_zero]
          rfl
      · refine Dinode.address_congr (fun inside => absurd inside direct) fun _ => ?_
        exact ⟨update_of_ne (Ne.symm isIndirect) _ _, fun _ => rfl⟩
  · have different : (other, place) ≠ (inum, index.val) := fun samePlace =>
      same (Prod.ext_iff.mp samePlace).1
    rw [update_of_ne different]
    exact address_setNode_of_ne same place

theorem address_setEntry (owns : Owns files.address used) {inum index number : Nat}
    (allocated : files.Allocated inum) (inside : index < 128)
    (present : files.address (inum, 124) ≠ 0) (small : number < 2 ^ 32) :
    (files.setEntry inum index number).address =
      update files.address (inum, 125 + index) number := by
  have indirect : files.address (inum, 124) = ((files.node inum).addrs 124).toNat := by
    rw [address_of_allocated allocated, Dinode.address_indirect]
  have nonzero : (files.node inum).addrs 124 ≠ 0 := by
    intro zero
    rw [indirect, zero] at present
    exact present rfl
  funext ⟨other, place⟩
  by_cases same : other = inum
  · subst same
    have stillAllocated : (files.setEntry other index number).Allocated other := allocated
    rw [address_of_allocated stillAllocated, setEntry, setBlock_node, setBlock_block]
    by_cases isPlace : place = 125 + index
    · subst isPlace
      rw [update_self, Dinode.address_of_ge _ _ (by omega) (by omega) nonzero, indirect,
        update_self, Nat.add_sub_cancel_left, word_setWord_self _ inside,
        toNat_ofNat_of_lt small]
    · have different : (other, place) ≠ (other, 125 + index) := fun samePlace =>
        isPlace (Prod.ext_iff.mp samePlace).2
      rw [update_of_ne different, address_of_allocated allocated place]
      by_cases outside : place < 125 ∨ 253 ≤ place
      · rcases outside with direct | beyond
        · rw [Dinode.address_of_lt _ _ direct, Dinode.address_of_lt _ _ direct]
        · rw [Dinode.address_eq_zero_of_ge _ _ beyond, Dinode.address_eq_zero_of_ge _ _ beyond]
      · rw [Dinode.address_of_ge _ _ (by omega) (by omega) nonzero,
          Dinode.address_of_ge _ _ (by omega) (by omega) nonzero, indirect, update_self,
          word_setWord_of_ne _ (by omega) (by omega)]
  · have different : (other, place) ≠ (inum, 125 + index) := fun samePlace =>
      same (Prod.ext_iff.mp samePlace).1
    rw [update_of_ne different]
    by_cases otherAllocated : files.Allocated other
    · have stillAllocated : (files.setEntry inum index number).Allocated other := otherAllocated
      rw [address_of_allocated stillAllocated, address_of_allocated otherAllocated]
      refine Dinode.address_congr (fun _ => rfl) fun _ => ⟨rfl, fun _ => ?_⟩
      refine update_of_ne ?_ _ _
      -- two inodes do not share an indirect block
      intro shared
      have otherIndirect : files.address (other, 124) = ((files.node other).addrs 124).toNat := by
        rw [address_of_allocated otherAllocated, Dinode.address_indirect]
      have equal := owns.unique (shared.symm.trans otherIndirect.symm) present
      exact same (Prod.ext_iff.mp equal).1.symm
    · have stillFree : ¬ (files.setEntry inum index number).Allocated other := otherAllocated
      rw [address_of_free stillFree, address_of_free otherAllocated]

/-- A place of an inode takes a block, which is zeroed. -/
def take (files : Files) (inum place number : Nat) : Files :=
  if direct : place < 125 then
    (files.setBlock number Block.zero).setAddr inum ⟨place, direct⟩ number
  else (files.setBlock number Block.zero).setEntry inum (place - 125) number

/-- A block can be taken for a place of an inode. -/
structure CanTake (files : Files) (used : Set Nat) (inum place number : Nat) : Prop where
  allocated : files.Allocated inum
  inside : place < 253
  empty : files.address (inum, place) = 0
  indirect : 125 ≤ place → files.address (inum, 124) ≠ 0
  nonzero : number ≠ 0
  small : number < 2 ^ 32
  free : number ∉ used

section

theorem address_zeroed (owns : Owns files.address used) (nonzero : number ≠ 0)
    (free : number ∉ used) : (files.setBlock number zero).address = files.address :=
  address_setBlock files (fun inum _ => owns.ne_of_notMem nonzero free (inum, 124)) _

section

variable (owns : Owns files.address used) (can : files.CanTake used inum place number)
include owns can

theorem address_take :
    (files.take inum place number).address =
      update files.address (inum, place) number := by
  have zeroed := address_zeroed owns can.nonzero can.free
  have allocated : (files.setBlock number zero).Allocated inum := can.allocated
  have inside := can.inside
  unfold take
  split
  · have isZero : (files.setBlock number zero).block number = zero := by
      rw [setBlock_block, update_self]
    rw [address_setAddr allocated (by rw [zeroed]; exact can.empty) can.small isZero, zeroed]
  · have owns' : Owns (files.setBlock number zero).address used := by
      rw [zeroed]
      exact owns
    rw [address_setEntry owns' allocated (by omega)
      (by rw [zeroed]; exact can.indirect (by omega)) can.small, zeroed,
      Nat.add_sub_cancel' (by omega)]

theorem owns_take : Owns (files.take inum place number).address (insert number used) := by
  rw [address_take owns can]
  exact owns.take can.empty can.nonzero can.free

end

/-- Taking a block changes only the numbers of blocks of an inode. -/
theorem take_node_of_ne (different : other ≠ inum) :
    (files.take inum place number).node other = files.node other := by
  unfold take
  split
  · exact update_of_ne different _ _
  · rfl

theorem take_node_self (files : Files) (inum place number : Nat) :
    ∃ addrs, (files.take inum place number).node inum = { files.node inum with addrs } := by
  unfold take
  split
  · exact ⟨_, update_self ..⟩
  · exact ⟨(files.node inum).addrs, rfl⟩

/-- A place inside the indirect block is no part of the inode. -/
theorem take_node_of_ge (indirect : 125 ≤ place) :
    (files.take inum place number).node = files.node := by
  rw [take, dif_neg (by omega)]
  rfl

variable (owns : Owns files.address used) (can : files.CanTake used inum place number)

include owns can

theorem take_block_indirect (indirect : 125 ≤ place) :
    (files.take inum place number).block (files.address (inum, 124)) =
      (files.block (files.address (inum, 124))).setWord (place - 125) (BitVec.ofNat 32 number) := by
  rw [take, dif_neg (by omega), setEntry, address_zeroed owns can.nonzero can.free, setBlock_block,
    update_self, setBlock_block,
    update_of_ne (owns.ne_of_notMem can.nonzero can.free _)]

theorem take_block_self : (files.take inum place number).block number = zero := by
  unfold take
  split
  · rw [setAddr, setNode_block, setBlock_block, update_self]
  · rw [setEntry, setBlock_block, address_zeroed owns can.nonzero can.free,
      update_of_ne (owns.ne_of_notMem can.nonzero can.free _).symm, setBlock_block,
      update_self]

/-- Taking a block changes only the indirect block of the inode and the new block. -/
theorem take_block_of_ne (different : other ≠ number)
    (notIndirect : 125 ≤ place → other ≠ files.address (inum, 124)) :
    (files.take inum place number).block other = files.block other := by
  unfold take
  split
  · exact update_of_ne different _ _
  · rw [setEntry, setBlock_block, address_zeroed owns can.nonzero can.free,
      update_of_ne (notIndirect (by omega)), setBlock_block,
      update_of_ne different]

/-- The bytes of all files stay, where they have blocks. -/
theorem byteAt_take {other : Nat}
    (present : files.address (other, placeOf (position / bsize)) ≠ 0) :
    (files.take inum place number).byteAt other position = files.byteAt other position := by
  have different : (other, placeOf (position / bsize)) ≠ (inum, place) := by
    intro same
    rw [same] at present
    exact present can.empty
  unfold byteAt
  rw [address_take owns can, update_of_ne different]
  congr 1
  refine take_block_of_ne owns can (owns.ne_of_notMem can.nonzero can.free _) fun _ => ?_
  exact fun same => placeOf_ne _ (Prod.ext_iff.mp (owns.unique same present)).2

end

/-! ## Writing to the block of a place -/

section

variable (owns : Owns files.address used)
include owns

/-- The block of a place of a file is no indirect block. -/
theorem address_ne_indirect {inum : Nat} (present : files.address (inum, placeOf bn) ≠ 0)
    (other : Nat) : files.address (other, 124) ≠ files.address (inum, placeOf bn) := by
  intro same
  have equal := owns.unique same.symm present
  exact placeOf_ne bn (Prod.ext_iff.mp equal).2

theorem address_setBlock_place {inum : Nat} (present : files.address (inum, placeOf bn) ≠ 0)
    (data : Block) :
    (files.setBlock (files.address (inum, placeOf bn)) data).address = files.address :=
  address_setBlock files (fun other _ => address_ne_indirect owns present other) data

/-- Two positions in the same block of a volume are in the same block of a file. -/
theorem eq_of_address_eq {inum other number : Nat} (present : files.address (inum, placeOf bn) ≠ 0)
    (same : files.address (other, placeOf number) = files.address (inum, placeOf bn)) :
    other = inum ∧ number = bn := by
  have equal := owns.unique same.symm present
  rw [Prod.mk.injEq] at equal
  exact ⟨equal.1.symm, placeOf_injective equal.2.symm⟩

/-- Bytes written to the block of a place are read back there, and only there. -/
theorem byteAt_setBytes {inum offset : Nat} {src : List UInt8}
    (present : files.address (inum, placeOf (offset / bsize)) ≠ 0)
    (fits : offset % bsize + src.length ≤ bsize) (other position : Nat) :
    (files.setBlock (files.address (inum, placeOf (offset / bsize)))
      ((files.block (files.address (inum, placeOf (offset / bsize)))).setBytes (offset % bsize)
        src)).byteAt other position =
      if other = inum ∧ offset ≤ position ∧ position < offset + src.length then
        src.getD (position - offset) 0
      else files.byteAt other position := by
  unfold byteAt
  rw [address_setBlock_place owns present, setBlock_block]
  have inside : position % bsize < 512 := Nat.mod_lt _ (by decide)
  have split := Nat.div_add_mod position bsize
  have split' := Nat.div_add_mod offset bsize
  by_cases same : files.address (other, placeOf (position / bsize)) =
      files.address (inum, placeOf (offset / bsize))
  · obtain ⟨isFile, isBlock⟩ := eq_of_address_eq owns present same
    rw [same, update_self, byte_setBytes _ _ inside]
    by_cases written : offset ≤ position ∧ position < offset + src.length
    · rw [if_pos (by rw [isBlock] at split; omega), if_pos ⟨isFile, written⟩,
        show position % bsize - offset % bsize = position - offset by
        rw [isBlock] at split; omega, getD_eq_getElem?_getD,
        getElem?_eq_getElem (by omega), getD_some, getD_some]
    · rw [if_neg (show ¬ (_ ∧ _) from fun other => written other.2)]
      split
      · rw [getElem?_eq_none (by rw [isBlock] at split; omega), getD_none]
      · rfl
  · rw [update_of_ne same, if_neg]
    rintro ⟨rfl, after, before⟩
    refine same ?_
    congr 3
    unfold bsize at *
    omega

end

/-! ## Writing to a file -/

/-- Bytes were written to a file from an offset on.  The file may have got blocks where
it had none, and nothing else changed. -/
structure Written (files files' : Files) (inum offset : Nat) (src : List UInt8) : Prop where
  node_of_ne : ∀ other, other ≠ inum → files'.node other = files.node other
  node_self : ∃ addrs, files'.node inum = { files.node inum with addrs }
  address_of_ne : ∀ other place, other ≠ inum →
    files'.address (other, place) = files.address (other, place)
  address_self : ∀ place, files.address (inum, place) ≠ 0 →
    files'.address (inum, place) = files.address (inum, place)
  present : ∀ position, offset ≤ position → position < offset + src.length →
    files'.address (inum, placeOf (position / bsize)) ≠ 0
  byteAt_src : ∀ position, offset ≤ position → position < offset + src.length →
    files'.byteAt inum position = src.getD (position - offset) 0
  byteAt_kept : ∀ other position, files.address (other, placeOf (position / bsize)) ≠ 0 →
    ¬ (other = inum ∧ offset ≤ position ∧ position < offset + src.length) →
    files'.byteAt other position = files.byteAt other position

namespace Written

theorem refl (files : Files) (inum offset : Nat) : Written files files inum offset [] where
  node_of_ne := fun _ _ => rfl
  node_self := ⟨_, rfl⟩
  address_of_ne := fun _ _ _ => rfl
  address_self := fun _ _ => rfl
  present := fun _ after before => absurd before (Nat.not_lt.mpr after)
  byteAt_src := fun _ after before => absurd before (Nat.not_lt.mpr after)
  byteAt_kept := fun _ _ _ _ => rfl

variable {files' files'' : Files} {offset : Nat} {src later : List UInt8}

variable (written : Written files files' inum offset src)
include written

theorem address_ne_zero {place : Place} (present : files.address place ≠ 0) :
    files'.address place ≠ 0 := by
  obtain ⟨other, place⟩ := place
  by_cases same : other = inum
  · subst same
    rwa [written.address_self place present]
  · rwa [written.address_of_ne other place same]

theorem allocated (allocated : files.Allocated other) : files'.Allocated other := by
  refine ⟨allocated.1, ?_⟩
  by_cases same : other = inum
  · obtain ⟨addrs, self⟩ := written.node_self
    rw [same, self]
    exact same ▸ allocated.2
  · rw [written.node_of_ne other same]
    exact allocated.2

theorem trans (next : Written files' files'' inum (offset + src.length) later) :
    Written files files'' inum offset (src ++ later) where
  node_of_ne := fun other different =>
    (next.node_of_ne other different).trans (written.node_of_ne other different)
  node_self := by
    obtain ⟨addrs, first⟩ := written.node_self
    obtain ⟨addrs', second⟩ := next.node_self
    exact ⟨addrs', by rw [second, first]⟩
  address_of_ne := fun other place different =>
    (next.address_of_ne other place different).trans (written.address_of_ne other place different)
  address_self := fun place present =>
    (next.address_self place (written.address_ne_zero present)).trans
      (written.address_self place present)
  present := by
    intro position after before
    rw [length_append] at before
    by_cases first : position < offset + src.length
    · exact next.address_ne_zero (written.present position after first)
    · exact next.present position (by omega) (by omega)
  byteAt_src := by
    intro position after before
    rw [length_append] at before
    by_cases first : position < offset + src.length
    · rw [next.byteAt_kept inum position (written.present position after first)
        (by rintro ⟨-, second, -⟩; omega), written.byteAt_src position after first,
        getD_append _ _ _ _ (by omega)]
    · rw [next.byteAt_src position (by omega) (by omega),
        getD_append_right _ _ _ _ (by omega), Nat.sub_sub]
  byteAt_kept := by
    intro other position present outside
    rw [length_append] at outside
    rw [next.byteAt_kept other position (written.address_ne_zero present)
      (by rintro ⟨same, after, before⟩; exact outside ⟨same, by omega, by omega⟩),
      written.byteAt_kept other position present
      (by rintro ⟨same, after, before⟩; exact outside ⟨same, by omega, by omega⟩)]

end Written

/-- A place that takes a block. -/
theorem written_take (owns : Owns files.address used) (can : files.CanTake used inum place number)
    (offset : Nat) :
    Written files (files.take inum place number) inum offset [] where
  node_of_ne := fun _ different => take_node_of_ne different
  node_self := take_node_self ..
  address_of_ne := by
    intro other index different
    rw [address_take owns can, update_of_ne]
    exact fun same => different (Prod.ext_iff.mp same).1
  address_self := by
    intro index present
    rw [address_take owns can, update_of_ne]
    rintro same
    rw [same] at present
    exact present can.empty
  present := fun _ after before => absurd before (Nat.not_lt.mpr after)
  byteAt_src := fun _ after before => absurd before (Nat.not_lt.mpr after)
  byteAt_kept := fun _ _ present _ => byteAt_take owns can present

/-- Bytes written inside one block. -/
theorem written_setBytes (owns : Owns files.address used) {inum offset : Nat} (src : List UInt8)
    (present : files.address (inum, placeOf (offset / bsize)) ≠ 0)
    (fits : offset % bsize + src.length ≤ bsize) :
    Written files (files.setBlock (files.address (inum, placeOf (offset / bsize)))
      ((files.block (files.address (inum, placeOf (offset / bsize)))).setBytes (offset % bsize)
        src)) inum offset src where
  node_of_ne := fun _ _ => rfl
  node_self := ⟨_, rfl⟩
  address_of_ne := fun _ _ _ => by rw [address_setBlock_place owns present]
  address_self := fun _ _ => by rw [address_setBlock_place owns present]
  present := by
    intro position after before
    rw [address_setBlock_place owns present]
    rwa [show position / bsize = offset / bsize by unfold bsize at *; omega]
  byteAt_src := by
    intro position after before
    rw [byteAt_setBytes owns present fits, if_pos ⟨rfl, after, before⟩]
  byteAt_kept := by
    intro other position _ outside
    rw [byteAt_setBytes owns present fits, if_neg outside]

/-! ## Files with exactly the blocks they need -/

/-- A file has exactly the blocks it needs for a size. -/
structure CoveredTo (files : Files) (inum size : Nat) : Prop where
  data : ∀ bn, files.address (inum, placeOf bn) ≠ 0 ↔ bn * bsize < size
  indirect : files.address (inum, 124) ≠ 0 ↔ ndirect * bsize < size

theorem CoveredTo.present {inum : Nat} (covered : files.CoveredTo inum size)
    (inside : position < size) : files.address (inum, placeOf (position / bsize)) ≠ 0 :=
  (covered.data _).mpr (lt_of_le_of_lt (Nat.div_mul_le_self ..) inside)

theorem CoveredTo.le {inum : Nat} (covered : files.CoveredTo inum size) :
    size ≤ maxfile * bsize := by
  by_contra large
  have present := (covered.data maxfile).mpr (by omega)
  have allocated := allocated_of_address_ne_zero present
  rw [address_of_allocated allocated] at present
  exact present (Dinode.address_eq_zero_of_ge _ _ (by decide))

theorem CoveredTo.congr {files files' : Files} (same : files.address = files'.address)
    {inum : Nat} : files.CoveredTo inum size ↔ files'.CoveredTo inum size := by
  constructor
  · rintro ⟨data, indirect⟩
    exact ⟨same ▸ data, same ▸ indirect⟩
  · rintro ⟨data, indirect⟩
    exact ⟨same ▸ data, same ▸ indirect⟩

/-- The number of blocks a file needs for a size. -/
def blocksFor (size : Nat) : Nat :=
  (size + bsize - 1) / bsize + if ndirect * bsize < size then 1 else 0

theorem blocksFor_mono {size' : Nat} (le : size ≤ size') : blocksFor size ≤ blocksFor size' := by
  unfold blocksFor bsize
  split <;> split <;> omega

/-- Inside a block the size does not matter. -/
theorem CoveredTo.mono {inum : Nat} (covered : files.CoveredTo inum size)
    (started : 0 < size % bsize) (fits : size % bsize + more ≤ bsize) :
    files.CoveredTo inum (size + more) ∧ blocksFor (size + more) = blocksFor size := by
  have data (bn : Nat) : bn * bsize < size ↔ bn * bsize < size + more := by
    unfold bsize at *
    omega
  refine ⟨⟨fun bn => (covered.data bn).trans (data bn), covered.indirect.trans (data _)⟩, ?_⟩
  unfold blocksFor
  simp only [data ndirect]
  unfold bsize at *
  omega

theorem blocksFor_next (some : 0 < more) (fits : more ≤ bsize) :
    blocksFor (bn * bsize + more) = blocksFor (bn * bsize) + if bn = ndirect then 2 else 1 := by
  unfold blocksFor bsize ndirect at *
  split <;> split <;> split <;> omega

/-- A file takes its next block.  The indirect block is there if it is needed. -/
theorem coveredTo_take {inum number : Nat} (owns : Owns files.address used)
    (can : files.CanTake used inum (placeOf bn) number)
    (data : ∀ other, files.address (inum, placeOf other) ≠ 0 ↔ other * bsize < bn * bsize)
    (indirect : files.address (inum, 124) ≠ 0 ↔ ndirect ≤ bn) (some : 0 < more)
    (fits : more ≤ bsize) :
    (files.take inum (placeOf bn) number).CoveredTo inum (bn * bsize + more) where
  data := by
    intro other
    rw [address_take owns can]
    by_cases same : other = bn
    · subst same
      rw [update_self]
      exact ⟨fun _ => by omega, fun _ => can.nonzero⟩
    · have different : (inum, placeOf other) ≠ (inum, placeOf bn) := fun samePlace =>
        same (placeOf_injective (Prod.ext_iff.mp samePlace).2)
      rw [update_of_ne different, data]
      unfold bsize at *
      omega
  indirect := by
    have different : (inum, 124) ≠ (inum, placeOf bn) := fun samePlace =>
      placeOf_ne bn (Prod.ext_iff.mp samePlace).2.symm
    rw [address_take owns can, update_of_ne different]
    unfold bsize ndirect at *
    omega

end Files

end XEditor.Fs
