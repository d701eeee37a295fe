import XEditor.Fs.Mkfs

/-!
# What `mkfs` builds

The state of `mkfs` holds the inodes and the blocks of a volume.  Blocks are handed
out in order, so the used ones are those below `freeblock`, and all others are still
zero.  Inside `iappend` the inode on the disk is behind the one in memory.
-/

namespace XEditor.Fs.Mkfs

open List Option Function Program Files Dinode

/-! ## Runs that fail for a reason only -/

/-- A run ends well, or it fails, which it does only under a condition. -/
abbrev Ends (fails : Prop) {α : Type} (program : Host α) (state : State)
    (ends : α → State → Prop) : Prop :=
  Spec (fun _ => True) (fun _ => True) (fun _ => fails) program state ends

section

variable {fails : Prop} {state : State}

theorem ends_assert {condition : Prop} [Decidable condition] {ends : Unit → State → Prop}
    (good : ¬ fails → condition) (holds : condition → ends () state) :
    Ends fails (assert condition) state ends := by
  unfold assert
  split
  · rename_i isTrue
    exact .pure (holds isTrue)
  · rename_i isFalse
    exact .halt (by_contra fun works => isFalse (good works))

theorem ends_rsect {sec : Nat} {ends : Block → State → Prop}
    (good : ¬ fails → sec < state.length)
    (holds : sec < state.length → ends (state.image sec) state) :
    Ends fails (rsect sec) state ends := by
  refine .bind (.get ?_)
  split
  · rename_i inside
    exact .pure (holds inside)
  · rename_i outside
    exact .halt (by_contra fun works => outside (good works))

end

/-! ## The state and the volume -/

theorem i2b_eq (inum : Nat) : i2b inum = inum + 2 :=
  iblock_eq inum

/-- The state of `mkfs` holds a volume.  The inode on the disk may be behind for one
inode. -/
structure Holds (state : State) (files : Files) (behind : Option Nat) : Prop where
  length : state.length = fssize
  used : state.usedblocks = state.freeblock
  start : dataStart ≤ state.freeblock
  top : state.freeblock ≤ fssize
  node : ∀ inum ≤ ninodes, behind ≠ some inum →
    Dinode.ofBlock (state.image (i2b inum)) = files.node inum
  block : ∀ number, dataStart ≤ number → state.image number = files.block number
  zero : ∀ number, state.freeblock ≤ number → state.image number = Block.zero
  owns : Owns files.address {number | dataStart ≤ number ∧ number < state.freeblock}
  fresh : ∀ inum, inum = 0 ∨ state.freeinode ≤ inum → (files.node inum).type = 0
  super : state.image 1 = superblock
  bitmap : state.image (dataStart - 1) = Block.zero

variable {behind : Option Nat} {state : State} {files : Files}

namespace Holds

variable {inum place : Nat}

theorem canTake (holds : Holds state files behind) (allocated : files.Allocated inum)
    (inside : place < 253) (empty : files.address (inum, place) = 0)
    (indirect : 125 ≤ place → files.address (inum, 124) ≠ 0) :
    files.CanTake {number | dataStart ≤ number ∧ number < state.freeblock} inum place
      state.freeblock where
  allocated := allocated
  inside := inside
  empty := empty
  indirect := indirect
  nonzero := by
    have := holds.start
    unfold dataStart ninodes ipb at this
    omega
  small := by
    have := holds.top
    unfold fssize at this
    omega
  free := fun isUsed => absurd isUsed.2 (Nat.lt_irrefl _)

theorem address_mem (holds : Holds state files behind) {place : Place}
    (present : files.address place ≠ 0) :
    dataStart ≤ files.address place ∧ files.address place < state.freeblock :=
  holds.owns.mem present

/-- The state after a block is handed out.  Its number is written to the inode in memory
or to the indirect block. -/
theorem take {last : State} (holds : Holds state files (some inum))
    (can : files.CanTake {number | dataStart ≤ number ∧ number < state.freeblock} inum place
      state.freeblock)
    (top : state.freeblock < fssize) (length : last.length = fssize)
    (used : last.usedblocks = state.usedblocks + 1)
    (freeblock : last.freeblock = state.freeblock + 1)
    (freeinode : last.freeinode = state.freeinode)
    (kept : ∀ number, (125 ≤ place → number ≠ files.address (inum, 124)) →
      last.image number = state.image number)
    (entry : 125 ≤ place → last.image (files.address (inum, 124)) =
      (state.image (files.address (inum, 124))).setWord (place - 125)
        (BitVec.ofNat 32 state.freeblock)) :
    Holds last (files.take inum place state.freeblock) (some inum) where
  length := length
  used := by rw [used, freeblock, holds.used]
  start := by
    have := holds.start
    omega
  top := by omega
  node := by
    intro other inside different
    have apart : other ≠ inum := fun same => different (congrArg some same.symm)
    rw [take_node_of_ne apart, ← holds.node other inside different]
    refine congrArg _ (kept _ fun indirect same => ?_)
    have := holds.address_mem (can.indirect indirect)
    rw [← same, i2b_eq, dataStart_eq] at this
    unfold ninodes at inside
    omega
  block := by
    intro number data
    by_cases isNew : number = state.freeblock
    · subst isNew
      rw [take_block_self holds.owns can, kept _ fun _ =>
        (holds.owns.ne_of_notMem can.nonzero can.free _).symm, holds.zero _ (Nat.le_refl _)]
    · by_cases isIndirect : 125 ≤ place ∧ number = files.address (inum, 124)
      · obtain ⟨indirect, rfl⟩ := isIndirect
        rw [take_block_indirect holds.owns can indirect, entry indirect, holds.block _ data]
      · have other : 125 ≤ place → number ≠ files.address (inum, 124) := fun indirect same =>
          isIndirect ⟨indirect, same⟩
        rw [take_block_of_ne holds.owns can isNew other, kept _ other, holds.block _ data]
  zero := by
    intro number above
    rw [kept number, holds.zero number (by omega)]
    rintro indirect rfl
    have := holds.address_mem (can.indirect indirect)
    omega
  owns := by
    have owns := owns_take holds.owns can
    rw [freeblock, show {number | dataStart ≤ number ∧ number < state.freeblock + 1} =
      insert state.freeblock {number | dataStart ≤ number ∧ number < state.freeblock} by
        ext number
        have := holds.start
        simp only [Set.mem_ofPred_eq, Set.mem_insert_iff]
        omega]
    exact owns
  fresh := by
    intro other free
    rw [freeinode] at free
    by_cases same : other = inum
    · obtain ⟨addrs, self⟩ := take_node_self files inum place state.freeblock
      rw [same, self]
      exact same ▸ holds.fresh other free
    · rw [take_node_of_ne same]
      exact holds.fresh other free
  super := by
    rw [kept 1, holds.super]
    intro indirect same
    have := holds.address_mem (can.indirect indirect)
    rw [dataStart_eq] at this
    omega
  bitmap := by
    rw [kept, holds.bitmap]
    intro indirect same
    have := holds.address_mem (can.indirect indirect)
    rw [← same, dataStart_eq] at this
    omega

end Holds

/-! ## Blocks of a file -/

section

variable {fails : Prop} {inum : Nat}

/-- `addBlock` finds a block, or hands out the next one. -/
theorem addBlock_ends (holds : Holds state files (some inum)) (allocated : files.Allocated inum)
    (index : Fin 125) :
    Ends fails (addBlock (files.node inum) index) state fun din last =>
      (files.address (inum, index) ≠ 0 ∧ din = files.node inum ∧ last = state) ∨
      (files.address (inum, index) = 0 ∧ (din.addrs index).toNat = state.freeblock ∧
        last.length = fssize ∧ last.freeblock = state.freeblock + 1 ∧
        last.freeinode = state.freeinode ∧
        (state.freeblock < fssize →
          Holds last (files.take inum index state.freeblock) (some inum) ∧
          (files.take inum index state.freeblock).node inum = din)) := by
  have address : files.address (inum, index) = ((files.node inum).addrs index).toNat := by
    rw [address_of_allocated allocated, address_of_lt _ _ index.isLt]
  unfold addBlock
  split
  · rename_i absent
    have empty : files.address (inum, index) = 0 := by
      rw [address, absent]
      rfl
    have inside : index.val < 125 := index.isLt
    have can := holds.canTake allocated (show index.val < 253 by omega) empty
      fun indirect => absurd indirect (by omega)
    refine .bind (.bind (.get (.bind (.modify (.pure (.pure (.inr ⟨empty, ?_, ?_⟩)))))))
    · dsimp only
      rw [update_self, toNat_ofNat_of_lt can.small]
    refine ⟨holds.length, rfl, rfl, fun top => ⟨?_, ?_⟩⟩
    · exact holds.take can top holds.length rfl rfl rfl (fun _ _ => rfl)
        fun indirect => absurd indirect (by omega)
    · rw [Files.take, dif_pos inside]
      exact update_self ..
  · rename_i present
    refine .pure (.inl ⟨fun zero => present ?_, rfl, rfl⟩)
    exact BitVec.eq_of_toNat_eq (address.symm.trans zero)

/-- What `mapBlock` leaves: if its result is a sector of the image, it is the block of
the file, which has the blocks for some more bytes. -/
structure Mapped (fails : Prop) (state : State) (files : Files) (inum off more : Nat)
    (result : Dinode × Nat) (last : State) : Prop where
  works : ¬ fails → result.2 < fssize
  length : last.length = fssize
  freeinode : last.freeinode = state.freeinode
  maps : result.2 < fssize → ∃ files', Holds last files' (some inum) ∧
    files'.node inum = result.1 ∧ files'.address (inum, placeOf (off / bsize)) = result.2 ∧
    result.2 ≠ 0 ∧ files'.CoveredTo inum (off + more) ∧ Written files files' inum off [] ∧
    last.freeblock + blocksFor off = state.freeblock + blocksFor (off + more)

/-- A block that is there. -/
theorem mapped_present (fails : Prop) (holds : Holds state files (some inum)) {off more : Nat}
    (covered : files.CoveredTo inum off) (fits : off % bsize + more ≤ bsize)
    (present : files.address (inum, placeOf (off / bsize)) ≠ 0) :
    Mapped fails state files inum off more
      (files.node inum, files.address (inum, placeOf (off / bsize))) state := by
  have started : 0 < off % bsize := by
    have := (covered.data _).mp present
    unfold bsize at *
    omega
  obtain ⟨covered', blocks⟩ := covered.mono started fits
  have inside := holds.address_mem present
  have top := holds.top
  refine ⟨fun _ => by dsimp only; omega, holds.length, rfl, fun _ => ?_⟩
  exact ⟨files, holds, rfl, rfl, present, covered', .refl .., by rw [blocks]⟩

variable (holds : Holds state files (some inum)) (allocated : files.Allocated inum) {off more : Nat}
include holds allocated

/-- The entry of the indirect block. -/
theorem mapEntry_ends (data : ∀ bn, files.address (inum, placeOf bn) ≠ 0 ↔ bn * bsize < off)
    (indirect : files.address (inum, 124) ≠ 0) (behind : ndirect ≤ off / bsize)
    (inside : off / bsize < maxfile) (nonempty : 0 < more) (fits : off % bsize + more ≤ bsize) :
    Ends fails (mapEntry (files.address (inum, 124)) (off / bsize - ndirect)) state
      fun x last => last.length = fssize ∧ last.freeinode = state.freeinode ∧ x ≤ state.freeblock ∧
        (off % bsize ≠ 0 → x < state.freeblock) ∧
        (x < fssize → ∃ files', Holds last files' (some inum) ∧
          files'.node inum = files.node inum ∧
          files'.address (inum, placeOf (off / bsize)) = x ∧ x ≠ 0 ∧
          files'.CoveredTo inum (off + more) ∧ Written files files' inum off [] ∧
          last.freeblock = state.freeblock + if off % bsize = 0 then 1 else 0) := by
  have place : placeOf (off / bsize) = 125 + (off / bsize - ndirect) := by
    rw [placeOf, if_neg (by omega)]
    unfold ndirect at *
    omega
  have index : off / bsize - ndirect < 128 := by
    unfold maxfile nindirect at inside
    omega
  have number := holds.address_mem indirect
  have top := holds.top
  have address : files.address (inum, 124) = ((files.node inum).addrs 124).toNat := by
    rw [address_of_allocated allocated, address_indirect]
  have word : (state.image (files.address (inum, 124))).word (off / bsize - ndirect) =
      BitVec.ofNat 32 (files.address (inum, placeOf (off / bsize))) := by
    rw [holds.block _ number.1, place, address_of_allocated allocated (125 + _),
      address_of_ge _ _ (by omega) (by omega)
        (fun zero => indirect (by rw [address, zero]; rfl)),
      Nat.add_sub_cancel_left, BitVec.ofNat_toNat, BitVec.setWidth_eq, address]
  refine .bind (ends_rsect (fun _ => by rw [holds.length]; omega) fun _ => ?_)
  by_cases present : files.address (inum, placeOf (off / bsize)) = 0
  · have atStart : off = off / bsize * bsize := by
      have absent := mt (data (off / bsize)).mpr (by simpa using present)
      unfold bsize at *
      omega
    have isStart : off % bsize = 0 := by
      unfold bsize at *
      omega
    have can := holds.canTake allocated (show 125 + (off / bsize - ndirect) < 253 by omega)
      (place ▸ present) fun _ => indirect
    rw [if_pos (by rw [word, present]; rfl)]
    refine .bind (.bind (.get (.bind (.modify (.pure ?_)))))
    refine .bind (.modify (.bind (.pure (.pure ?_))))
    rw [Block.word_setWord_self _ index, toNat_ofNat_of_lt can.small]
    refine ⟨?_, rfl, Nat.le_refl _, fun different => absurd isStart different, fun below => ?_⟩
    · show max state.length _ = fssize
      rw [holds.length]
      omega
    · refine ⟨files.take inum (125 + (off / bsize - ndirect)) state.freeblock, ?_, ?_, ?_,
        can.nonzero, ?_, written_take holds.owns can off, ?_⟩
      · refine holds.take can below ?_ rfl rfl rfl (fun number other => ?_) fun _ => ?_
        · show max state.length _ = fssize
          rw [holds.length]
          omega
        · exact update_of_ne (other (by omega)) _ _
        · rw [Nat.add_sub_cancel_left]
          exact update_self ..
      · rw [take_node_of_ge (by omega)]
      · rw [place, address_take holds.owns can, update_self]
      · rw [← place] at can ⊢
        have covered := coveredTo_take holds.owns can (by rw [← atStart]; exact data)
          ⟨fun _ => behind, fun _ => indirect⟩ nonempty (by omega)
        rwa [← atStart] at covered
      · rw [if_pos isStart]
  · have number := holds.address_mem present
    have nonzero : BitVec.ofNat 32 (files.address (inum, placeOf (off / bsize))) ≠ 0 := by
      intro zero
      have := congrArg BitVec.toNat zero
      rw [toNat_ofNat_of_lt (by unfold fssize at top; omega)] at this
      exact present this
    rw [if_neg (by rw [word]; exact nonzero)]
    refine .bind (.pure (.pure ?_))
    have started := (data _).mp present
    have notStart : off % bsize ≠ 0 := by
      unfold bsize at *
      omega
    rw [word, toNat_ofNat_of_lt (by unfold fssize at top; omega)]
    refine ⟨holds.length, rfl, by omega, fun _ => by omega, fun _ => ?_⟩
    refine ⟨files, holds, rfl, rfl, present, ?_, .refl .., by rw [if_neg notStart]; rfl⟩
    have covered : files.CoveredTo inum off := by
      refine ⟨data, ⟨fun _ => ?_, fun _ => indirect⟩⟩
      exact lt_of_le_of_lt (Nat.mul_le_mul_right _ behind) started
    exact (covered.mono (by omega) fits).1

variable (covered : files.CoveredTo inum off) (nonempty : 0 < more)
  (fits : off % bsize + more ≤ bsize)
  (room : ¬ fails → state.freeblock + blocksFor (off + more) ≤ fssize + blocksFor off)
include covered nonempty fits room

theorem mapBlock_ends_direct (direct : off / bsize < ndirect) :
    Ends fails (mapBlock (files.node inum) (off / bsize)) state
      (Mapped fails state files inum off more) := by
  have place : placeOf (off / bsize) = off / bsize := if_pos direct
  have inside : off / bsize < 125 := Nat.lt_succ_of_lt direct
  rw [mapBlock, dif_pos direct]
  refine .andThen (addBlock_ends holds allocated ⟨off / bsize, inside⟩) ?_
  rintro din last (⟨present, rfl, rfl⟩ | ⟨empty, number, length, freeblock, freeinode, holds'⟩)
  · refine .pure ?_
    have address : files.address (inum, placeOf (off / bsize)) =
        ((files.node inum).addrs ⟨off / bsize, inside⟩).toNat := by
      rw [place, address_of_allocated allocated, address_of_lt _ _ inside]
    have mapped := mapped_present fails holds covered fits (place.symm ▸ present)
    rwa [address] at mapped
  · refine .pure ?_
    dsimp only at empty number
    have atStart : off = off / bsize * bsize := by
      have absent := mt (covered.data (off / bsize)).mpr (by rw [place]; simpa using empty)
      unfold bsize at *
      omega
    have isDirect : ¬ off / bsize = ndirect := by omega
    have next : blocksFor (off + more) = blocksFor off + 1 := by
      rw [atStart, blocksFor_next nonempty (by unfold bsize at *; omega), if_neg isDirect]
    refine ⟨fun works => ?_, length, freeinode, fun top => ?_⟩
    · have := room works
      omega
    rw [number] at top
    obtain ⟨taken, node⟩ := holds' top
    have can := holds.canTake allocated (by omega) empty
      fun indirect => absurd indirect (by omega)
    refine ⟨_, taken, node, ?_, ?_, ?_, written_take holds.owns can off, by omega⟩
    · rw [place, address_take holds.owns can, update_self, number]
    · rw [number]
      exact can.nonzero
    have data : ∀ other, files.address (inum, placeOf other) ≠ 0 ↔
        other * bsize < off / bsize * bsize := by
      rw [← atStart]
      exact covered.data
    have indirect : files.address (inum, 124) ≠ 0 ↔ ndirect ≤ off / bsize := by
      rw [covered.indirect]
      unfold bsize ndirect at *
      omega
    have taken := coveredTo_take holds.owns (place.symm ▸ can) data indirect nonempty
      (by unfold bsize at *; omega)
    rwa [← atStart, place] at taken

theorem mapBlock_ends_indirect (behind : ndirect ≤ off / bsize) (inside : off / bsize < maxfile) :
    Ends fails (mapBlock (files.node inum) (off / bsize)) state
      (Mapped fails state files inum off more) := by
  rw [mapBlock, dif_neg (by omega)]
  refine .andThen (addBlock_ends holds allocated 124) ?_
  rintro din last (⟨present, rfl, rfl⟩ | ⟨empty, number, length, freeblock, freeinode, taken⟩)
  · have indirect : files.address (inum, 124) ≠ 0 := present
    have address : ((files.node inum).addrs 124).toNat = files.address (inum, 124) := by
      rw [address_of_allocated allocated, address_indirect]
    rw [address]
    refine .andThen (mapEntry_ends holds allocated covered.data indirect behind inside nonempty
      fits) ?_
    rintro x final ⟨length, freeinode, below, strictly, maps⟩
    have blocks : blocksFor (off + more) = blocksFor off + if off % bsize = 0 then 1 else 0 := by
      by_cases atStart : off % bsize = 0
      · have isStart : off = off / bsize * bsize := by
          unfold bsize at *
          omega
        have later : ¬ off / bsize = ndirect := by
          intro same
          have := covered.indirect.mp indirect
          rw [isStart, same] at this
          omega
        rw [if_pos atStart]
        conv_lhs => rw [isStart]
        conv_rhs => rw [isStart]
        rw [blocksFor_next nonempty (by omega), if_neg later]
      · rw [if_neg atStart]
        exact (covered.mono (by omega) fits).2
    refine .pure ⟨fun works => ?_, length, freeinode, fun below' => ?_⟩
    · have := room works
      split at blocks
      · omega
      · omega
    · obtain ⟨files', holds', node, address', nonzero, covered', written, count⟩ := maps below'
      refine ⟨files', holds', node, address', nonzero, covered', written, ?_⟩
      omega
  · have isStart : off = ndirect * bsize := by
      have absent := mt covered.indirect.mpr (by simpa using empty)
      unfold bsize ndirect at *
      omega
    have atStart : off % bsize = 0 := by
      rw [isStart]
      rfl
    have blocks : blocksFor (off + more) = blocksFor off + 2 := by
      rw [isStart, blocksFor_next nonempty (by omega), if_pos rfl]
    by_cases inImage : state.freeblock < fssize
    · obtain ⟨holds', node⟩ := taken inImage
      have can : files.CanTake {number | dataStart ≤ number ∧ number < state.freeblock} inum 124
          state.freeblock :=
        holds.canTake allocated (by omega) empty fun indirect => absurd indirect (by omega)
      set middle := files.take inum 124 state.freeblock with isMiddle
      have address : (din.addrs 124).toNat = middle.address (inum, 124) := by
        rw [number, address_take holds.owns can, update_self]
      have data (bn : Nat) : middle.address (inum, placeOf bn) ≠ 0 ↔ bn * bsize < off := by
        have different : (inum, placeOf bn) ≠ (inum, 124) := fun same =>
          placeOf_ne bn (Prod.ext_iff.mp same).2
        rw [address_take holds.owns can, update_of_ne different]
        exact covered.data bn
      have grown := written_take holds.owns can off
      have indirect : middle.address (inum, 124) ≠ 0 := by
        rw [← address, number]
        exact can.nonzero
      rw [address, ← node]
      refine .andThen (mapEntry_ends holds' (grown.allocated allocated) data indirect behind inside
        nonempty fits) ?_
      rintro x final ⟨length', freeinode', below, -, maps⟩
      refine .pure ⟨fun works => ?_, length', freeinode'.trans freeinode, fun below' => ?_⟩
      · have := room works
        omega
      obtain ⟨files', holds', node', address', nonzero, covered', written, count⟩ := maps below'
      refine ⟨files', holds', node', address', nonzero, covered', grown.trans written, ?_⟩
      rw [if_pos atStart] at count
      omega
    · refine .bind (.bind (ends_rsect (fun works => ?_) fun inside => ?_))
      · have := room works
        omega
      · rw [number, length] at inside
        exact absurd inside inImage

theorem mapBlock_ends (inside : off / bsize < maxfile) :
    Ends fails (mapBlock (files.node inum) (off / bsize)) state
      (Mapped fails state files inum off more) := by
  by_cases direct : off / bsize < ndirect
  · exact mapBlock_ends_direct holds allocated covered nonempty fits room direct
  · exact mapBlock_ends_indirect holds allocated covered nonempty fits room (by omega) inside

end

/-! ## Appending -/

/-- Data is written to the block of a file. -/
theorem Holds.setBlock {inum bn : Nat} (holds : Holds state files (some inum)) (last : State)
    (present : files.address (inum, placeOf bn) ≠ 0) {data : Block}
    (image : last.image = update state.image (files.address (inum, placeOf bn)) data)
    (length : last.length = fssize) (used : last.usedblocks = state.usedblocks)
    (freeblock : last.freeblock = state.freeblock) (freeinode : last.freeinode = state.freeinode) :
    Holds last (files.setBlock (files.address (inum, placeOf bn)) data) (some inum) := by
  have inside := holds.address_mem present
  have low {number : Nat} (below : number < dataStart) :
      last.image number = state.image number := by
    rw [image, update_of_ne (by omega)]
  refine ⟨length, by rw [used, freeblock, holds.used], by rw [freeblock]; exact holds.start,
    by rw [freeblock]; exact holds.top, ?_, ?_, ?_, ?_, ?_, ?_, ?_⟩
  · intro other bound different
    rw [low, holds.node other bound different]
    · rfl
    · rw [i2b_eq, dataStart_eq]
      unfold ninodes at bound
      omega
  · intro number isData
    rw [image, setBlock_block]
    by_cases same : number = files.address (inum, placeOf bn)
    · rw [same, update_self, update_self]
    · rw [update_of_ne same, update_of_ne same, holds.block number isData]
  · intro number above
    rw [image, update_of_ne (by omega), holds.zero number (by omega)]
  · rw [address_setBlock_place holds.owns present, freeblock]
    exact holds.owns
  · rw [freeinode]
    exact holds.fresh
  · rw [low (by decide), holds.super]
  · rw [low (by decide), holds.bitmap]

section

variable {fails : Prop} {inum : Nat}

theorem iappendLoop_ends (fuel : Nat) {off : Nat} {p : List UInt8} (enough : p.length ≤ fuel)
    (holds : Holds state files (some inum)) (allocated : files.Allocated inum)
    (covered : files.CoveredTo inum off) (small : ¬ fails → off + p.length ≤ maxfile * bsize)
    (room : ¬ fails → state.freeblock + blocksFor (off + p.length) ≤ fssize + blocksFor off) :
    Ends fails (iappendLoop fuel (files.node inum) off p) state fun result last =>
      result.2 = off + p.length ∧ last.freeinode = state.freeinode ∧
      ∃ files', Holds last files' (some inum) ∧ files'.node inum = result.1 ∧
        files'.CoveredTo inum (off + p.length) ∧ Written files files' inum off p ∧
        last.freeblock + blocksFor off = state.freeblock + blocksFor (off + p.length) := by
  induction fuel generalizing state files off p with
  | zero =>
    have empty : p = [] := length_eq_zero_iff.mp (Nat.le_zero.mp enough)
    subst empty
    exact .pure ⟨rfl, rfl, files, holds, rfl, covered, .refl .., rfl⟩
  | succ fuel ih =>
    rw [iappendLoop]
    by_cases empty : p = []
    · subst empty
      rw [if_pos rfl]
      exact .pure ⟨rfl, rfl, files, holds, rfl, covered, .refl .., rfl⟩
    · have nonempty : 0 < p.length := length_pos_iff.mpr empty
      set m := min p.length ((off / bsize + 1) * bsize - off) with isM
      have bounds : 0 < m ∧ m ≤ p.length ∧ off % bsize + m ≤ bsize := by
        unfold bsize at *
        omega
      have taken : (p.take m).length = m := by
        rw [length_take]
        omega
      have dropped : m + (p.drop m).length = p.length := by
        rw [length_drop]
        omega
      have whole : off + m + (p.drop m).length = off + p.length := by omega
      have more := blocksFor_mono (show off + m ≤ off + p.length by omega)
      rw [if_neg empty]
      refine .bind (ends_assert (fun works => ?_) fun inside => ?_)
      · have := small works
        unfold bsize at *
        omega
      refine .andThen (mapBlock_ends holds allocated covered bounds.1 bounds.2.2
        (fun works => by have := room works; omega) inside) ?_
      rintro ⟨din, x⟩ middle mapped
      refine .bind (ends_rsect (fun works => ?_) fun inImage => ?_)
      · rw [mapped.length]
        exact mapped.works works
      rw [mapped.length] at inImage
      obtain ⟨files₁, holds₁, node₁, address₁, nonzero, covered₁, written₁, count₁⟩ :=
        mapped.maps inImage
      dsimp only at node₁ address₁ nonzero
      have present : files₁.address (inum, placeOf (off / bsize)) ≠ 0 := address₁ ▸ nonzero
      have isData := holds₁.address_mem present
      have offset : off - off / bsize * bsize = off % bsize := by
        unfold bsize
        omega
      have written₂ := written_setBytes holds₁.owns (p.take m) present
        (by rw [taken]; exact bounds.2.2)
      refine .bind (.modify ?_)
      rw [← node₁, offset, ← address₁, holds₁.block _ isData.1, ← isM]
      have holds₂ := holds₁.setBlock
        { middle with
          image := update middle.image (files₁.address (inum, placeOf (off / bsize)))
            ((files₁.block (files₁.address (inum, placeOf (off / bsize)))).setBytes
              (off % bsize) (p.take m))
          length := max middle.length (files₁.address (inum, placeOf (off / bsize)) + 1) }
        present rfl (by show max middle.length _ = _; rw [mapped.length]; omega) rfl rfl rfl
      have covered₂ := covered₁
      rw [CoveredTo.congr (address_setBlock_place holds₁.owns present _).symm] at covered₂
      refine (ih (by omega) holds₂ (written₂.allocated (written₁.allocated allocated)) covered₂
        (fun works => by have := small works; omega)
        fun works => by have := room works; dsimp only; rw [whole]; omega).mono ?_
      rintro result last ⟨off', freeinode, files', holds', node', covered', written', count⟩
      rw [whole] at off' covered' count
      refine ⟨off', freeinode.trans mapped.freeinode, files', holds', node', covered', ?_, ?_⟩
      · have all := (written₁.trans (show Written _ _ _ (off + _) _ from written₂)).trans
          (show Written _ _ _ (off + ([] ++ p.take m).length) _ by
            rw [nil_append, taken]; exact written')
        rwa [nil_append, take_append_drop] at all
      · dsimp only at count
        omega

theorem winode_ends (holds : Holds state files behind) (inside : inum ≤ ninodes)
    (isBehind : ∀ other, behind = some other → other = inum) {din : Dinode}
    (address : (files.setNode inum din).address = files.address)
    (fresh : inum = 0 ∨ state.freeinode ≤ inum → din.type = 0) :
    Ends fails (winode inum din) state fun _ last =>
      Holds last (files.setNode inum din) none ∧ last.freeblock = state.freeblock ∧
        last.freeinode = state.freeinode := by
  have sector : i2b inum < dataStart - 2 := by
    rw [i2b_eq, dataStart_eq]
    unfold ninodes at inside
    omega
  have inImage : i2b inum < fssize := sector.trans (by decide)
  refine .bind (ends_rsect (fun _ => holds.length ▸ inImage) fun _ => .modify ⟨?_, rfl, rfl⟩)
  have start := holds.start
  have kept {number : Nat} (different : number ≠ i2b inum) : update state.image (i2b inum)
      (din.store (state.image (i2b inum))) number = state.image number :=
    update_of_ne different _ _
  refine ⟨?_, holds.used, holds.start, holds.top, ?_, ?_, ?_, ?_, ?_, ?_, ?_⟩
  · show max state.length _ = fssize
    rw [holds.length]
    omega
  · intro other bound _
    rw [setNode_node]
    by_cases same : other = inum
    · subst same
      rw [update_self]
      dsimp only
      rw [update_self, ofBlock_store]
    · rw [update_of_ne same]
      dsimp only
      rw [kept (by rw [i2b_eq, i2b_eq]; omega), holds.node other bound fun isOther =>
        same (isBehind other isOther)]
  · intro number isData
    dsimp only
    rw [kept (by omega), holds.block number isData]
    rfl
  · intro number above
    dsimp only at above ⊢
    rw [kept (by omega), holds.zero number above]
  · rw [address]
    exact holds.owns
  · intro other isFree
    rw [setNode_node]
    by_cases same : other = inum
    · subst same
      rw [update_self]
      exact fresh isFree
    · rw [update_of_ne same]
      exact holds.fresh other isFree
  · dsimp only
    rw [kept (by rw [i2b_eq]; omega), holds.super]
  · dsimp only
    rw [kept (by omega), holds.bitmap]

theorem rinode_ends (holds : Holds state files none) (inside : inum ≤ ninodes) :
    Ends fails (rinode inum) state fun din last => din = files.node inum ∧ last = state := by
  have inImage : i2b inum < fssize := by
    rw [i2b_eq]
    unfold ninodes at inside
    unfold fssize
    omega
  refine .bind (ends_rsect (fun _ => holds.length ▸ inImage) fun _ => .pure ⟨?_, rfl⟩)
  exact holds.node inum inside (by simp)

end

/-! ## Files of the image -/

/-- A file that `mkfs` made. -/
structure Stored (files : Files) (inum : Nat) (type : BitVec 16) (bytes : List UInt8) : Prop where
  inside : inum ≤ ninodes
  used : type ≠ 0
  node : ∃ addrs, files.node inum = ⟨type, 0, 0, 1, BitVec.ofNat 32 bytes.length, addrs⟩
  covered : files.CoveredTo inum bytes.length
  contents : ∀ position, position < bytes.length →
    files.byteAt inum position = bytes.getD position 0

namespace Stored

variable {files' : Files} {inum : Nat} {type : BitVec 16} {bytes : List UInt8}

theorem allocated (stored : Stored files inum type bytes) : files.Allocated inum := by
  obtain ⟨addrs, node⟩ := stored.node
  exact ⟨stored.inside, by rw [node]; exact stored.used⟩

theorem congr (stored : Stored files inum type bytes) (node : files'.node inum = files.node inum)
    (address : ∀ place, files'.address (inum, place) = files.address (inum, place))
    (byteAt : ∀ position, files.address (inum, placeOf (position / bsize)) ≠ 0 →
      files'.byteAt inum position = files.byteAt inum position) :
    Stored files' inum type bytes where
  inside := stored.inside
  used := stored.used
  node := by
    rw [node]
    exact stored.node
  covered := by
    refine ⟨fun bn => ?_, ?_⟩
    · rw [address]
      exact stored.covered.data bn
    · rw [address]
      exact stored.covered.indirect
  contents := by
    intro position inside
    rw [byteAt position (stored.covered.present inside), stored.contents position inside]

end Stored

section

variable {fails : Prop} {inum : Nat} {type : BitVec 16}

/-- `iappend` appends to a file and leaves the others. -/
theorem iappend_ends {bytes p : List UInt8} (holds : Holds state files none)
    (stored : Stored files inum type bytes) (old : inum ≠ 0 ∧ inum < state.freeinode)
    (small : ¬ fails → bytes.length + p.length ≤ maxfile * bsize)
    (room : ¬ fails → state.freeblock + blocksFor (bytes.length + p.length) ≤
      fssize + blocksFor bytes.length) :
    Ends fails (iappend inum p) state fun _ last => ∃ files', Holds last files' none ∧
      Stored files' inum type (bytes ++ p) ∧
      (∀ other type bytes, other ≠ inum → Stored files other type bytes →
        Stored files' other type bytes) ∧
      last.freeinode = state.freeinode ∧
      last.freeblock + blocksFor bytes.length =
        state.freeblock + blocksFor (bytes.length + p.length) := by
  obtain ⟨addrs, node⟩ := stored.node
  have size : (files.node inum).size.toNat = bytes.length := by
    have bound := stored.covered.le
    rw [node]
    exact toNat_ofNat_of_lt (lt_of_le_of_lt bound (by decide))
  refine .andThen (rinode_ends holds stored.inside) ?_
  rintro _ _ ⟨rfl, isState⟩
  rw [size, isState]
  have behind : Holds state files (some inum) :=
    { holds with node := fun other bound _ => holds.node other bound (by simp) }
  refine .andThen (iappendLoop_ends p.length (Nat.le_refl _) behind stored.allocated
    stored.covered small room) ?_
  rintro ⟨din, off⟩ middle ⟨rfl, freeinode, files₁, holds₁, rfl, covered₁, written, count⟩
  obtain ⟨addrs₁, node₁⟩ := written.node_self
  have address : (files₁.setNode inum { files₁.node inum with
      size := BitVec.ofNat 32 (bytes.length + p.length) }).address = files₁.address :=
    address_setNode rfl Iff.rfl
  refine (winode_ends holds₁ stored.inside (fun other isOther => (some.inj isOther).symm)
    address fun free => ?_).mono ?_
  · exact absurd free (by rw [freeinode]; omega)
  rintro _ last ⟨holds₂, freeblock₂, freeinode₂⟩
  refine ⟨_, holds₂, ⟨stored.inside, stored.used, ?_, ?_, ?_⟩, ?_, freeinode₂.trans freeinode,
    by omega⟩
  · refine ⟨addrs₁, ?_⟩
    rw [setNode_node, update_self, node₁, node, length_append]
  · rw [CoveredTo.congr address, length_append]
    exact covered₁
  · intro position inside
    rw [byteAt_setNode address]
    rw [length_append] at inside
    by_cases isOld : position < bytes.length
    · rw [written.byteAt_kept inum position (stored.covered.present isOld)
        (by rintro ⟨-, after, -⟩; omega), stored.contents position isOld,
        getD_append _ _ _ _ isOld]
    · rw [written.byteAt_src position (by omega) inside, getD_append_right _ _ _ _ (by omega)]
  · intro other type' bytes' different isStored
    refine isStored.congr ?_ ?_ ?_
    · rw [setNode_node, update_of_ne different, written.node_of_ne other different]
    · intro place
      rw [address, written.address_of_ne other place different]
    · intro position present
      rw [byteAt_setNode address, written.byteAt_kept other position present
        fun same => different same.1]

/-- `ialloc` makes an empty file and leaves the others. -/
theorem ialloc_ends (holds : Holds state files none) (positive : state.freeinode ≠ 0)
    (inside : state.freeinode ≤ ninodes) (used : type ≠ 0) :
    Ends fails (ialloc type) state fun inum last => inum = state.freeinode ∧
      ∃ files', Holds last files' none ∧ Stored files' inum type [] ∧
        (∀ other type bytes, other ≠ inum → Stored files other type bytes →
          Stored files' other type bytes) ∧
        last.freeinode = state.freeinode + 1 ∧ last.freeblock = state.freeblock := by
  have free : (files.node state.freeinode).type = 0 :=
    holds.fresh _ (.inr (Nat.le_refl _))
  set din : Dinode := { fresh type with nlink := 1 } with isDin
  have empty (place : Nat) : (files.setNode state.freeinode din).address
      (state.freeinode, place) = 0 := by
    have allocated : (files.setNode state.freeinode din).Allocated state.freeinode := by
      refine ⟨inside, ?_⟩
      rw [setNode_node, update_self]
      exact used
    rw [address_of_allocated allocated, setNode_node, update_self]
    by_cases direct : place < 125
    · rw [address_of_lt _ _ direct]
      rfl
    · exact address_eq_zero_of_absent _ _ (by omega) rfl
  have covered : (files.setNode state.freeinode din).CoveredTo state.freeinode 0 := by
    refine ⟨fun bn => ?_, ?_⟩
    · simp [empty]
    · simp [empty]
  have address : (files.setNode state.freeinode din).address = files.address := by
    funext ⟨other, place⟩
    by_cases same : other = state.freeinode
    · subst same
      rw [empty, address_of_free fun allocated => allocated.2 free]
    · exact address_setNode_of_ne same place
  refine .bind (.get (.bind (.modify ?_)))
  have counted : Holds { state with freeinode := state.freeinode + 1 } files none :=
    { holds with
      fresh := fun other isFree => holds.fresh other (isFree.imp_right fun above => by
        dsimp only at above
        omega) }
  refine .andThen (winode_ends counted inside (fun _ isOther => by cases isOther) address
    fun isFree => ?_) ?_
  · dsimp only at isFree
    omega
  rintro _ last ⟨holds', freeblock, freeinode⟩
  refine .pure ⟨rfl, _, holds', ⟨inside, used, ⟨fun _ => 0, ?_⟩, covered, ?_⟩, ?_, freeinode,
    freeblock⟩
  · rw [setNode_node, update_self]
    rfl
  · simp
  · intro other type' bytes' different isStored
    refine isStored.congr ?_ (fun _ => by rw [address]) fun _ _ => by rw [byteAt_setNode address]
    rw [setNode_node, update_of_ne different]

end

end XEditor.Fs.Mkfs
