import XEditor.Fs.MkfsImage

/-!
# Block addresses in a fresh image

When the kernel reads a file it expects a block for every part of it below its size;
`bmap` allocates where there is none.  An image has this property just if the entries
of the root directory do not fill its blocks, and if there is an inode block for each
file.
-/

namespace XEditor.Fs.Mkfs

open List Program Files

variable {inputs : List Input}

variable {events : List Empty} {sec inum : Nat}

theorem made_of_returns (few : inputs.length < ninodes) {last : State}
    (returns : Returns (main inputs) State.start () last events) :
    ∃ files, Made last.image files inputs :=
  (main_ends few fun works => absurd trivial works).ends_of_returns returns fun _ _ => trivial

theorem exists_made (fits : Fits inputs) :
    ∃ last files, Returns (main inputs) State.start () last [] ∧ Made last.image files inputs := by
  obtain ⟨_, last, events, returns, files, made⟩ :=
    (main_ends fits.few fun _ => fits).exists_returns (fun _ => id) fun _ _ => trivial
  have silent : events = [] := by
    cases events with
    | nil => rfl
    | cons event _ => exact event.elim
  exact ⟨last, files, silent ▸ returns, made⟩

/-! ## Counting used blocks -/

/-- The number of used blocks does not go down. -/
def Grows {α : Type} (program : Host α) : Prop :=
  ∀ state, Ends True program state fun _ last => state.usedblocks ≤ last.usedblocks

namespace Grows

variable {α β : Type}

theorem bind {program : Host α} {next : α → Host β} (grows : Grows program)
    (later : ∀ value, Grows (next value)) : Grows (program >>= next) := fun state =>
  .andThen (grows state) fun value middle le =>
    (later value middle).mono fun _ _ le' => le.trans le'

theorem pure {value : α} : Grows (Pure.pure value) := fun _ => Spec.pure (Nat.le_refl _)

theorem get : Grows Program.get := fun _ => Spec.get (Nat.le_refl _)

theorem assert {condition : Prop} [Decidable condition] : Grows (assert condition) := fun _ =>
  ends_assert (fun works => absurd trivial works) fun _ => Nat.le_refl _

theorem rsect : Grows (rsect sec) := fun _ =>
  ends_rsect (fun works => absurd trivial works) fun _ => Nat.le_refl _

theorem wsect {buf : Block} : Grows (wsect sec buf) := fun _ =>
  Spec.modify (Nat.le_refl _)

theorem newBlock : Grows newBlock :=
  get.bind fun _ => bind (fun _ => Spec.modify (Nat.le_succ _)) fun _ => pure

theorem ite {condition : Prop} [Decidable condition] {first second : Host α}
    (grows : Grows first) (grows' : Grows second) :
    Grows (if condition then first else second) := by
  split
  · exact grows
  · exact grows'

theorem each {body : β → Host Unit} (grows : ∀ element, Grows (body element))
    (elements : List β) : Grows (each body elements) := by
  induction elements with
  | nil => exact pure
  | cons element elements ih => exact (grows element).bind fun _ => ih

variable {din : Dinode}

theorem winode : Grows (winode inum din) :=
  rsect.bind fun _ => wsect

theorem addBlock {index : Fin 125} : Grows (addBlock din index) :=
  ite (newBlock.bind fun _ => pure) pure

theorem mapEntry {index : Nat} : Grows (mapEntry sec index) :=
  rsect.bind fun _ => ite (newBlock.bind fun _ => wsect.bind fun _ => pure.bind fun _ => pure)
    (pure.bind fun _ => pure)

theorem mapBlock {fbn : Nat} : Grows (mapBlock din fbn) := by
  unfold Mkfs.mapBlock
  split
  · exact addBlock.bind fun _ => pure
  · exact addBlock.bind fun _ => mapEntry.bind fun _ => pure

theorem iappendLoop (fuel : Nat) {off : Nat} {p : List UInt8} :
    Grows (iappendLoop fuel din off p) := by
  induction fuel generalizing din off p with
  | zero => exact pure
  | succ fuel ih =>
    exact ite pure (assert.bind fun _ => mapBlock.bind fun _ => rsect.bind fun _ =>
      wsect.bind fun _ => ih)

theorem iappend {p : List UInt8} : Grows (iappend inum p) :=
  bind (rsect.bind fun _ => pure) fun _ => (iappendLoop p.length).bind fun _ => winode

theorem ialloc {type : BitVec 16} : Grows (ialloc type) :=
  get.bind fun _ => bind (fun _ => Spec.modify (Nat.le_refl _)) fun _ =>
    winode.bind fun _ => pure

theorem addFile {root : Nat} {file : Input} : Grows (addFile root file) :=
  assert.bind fun _ => ialloc.bind fun _ => iappend.bind fun _ => each (fun _ => iappend) _

theorem makeRoot : Grows makeRoot :=
  ialloc.bind fun _ => assert.bind fun _ => iappend.bind fun _ => iappend.bind fun _ => pure

end Grows

/-- The bitmap block of an image covers at least the blocks before the data. -/
theorem exists_bitmap {last : State} (returns : Returns (main inputs) State.start () last events) :
    ∃ used, dataStart ≤ used ∧ last.image (dataStart - 2) = bitmap used := by
  have spec : Ends True (main inputs) State.start fun _ last =>
      ∃ used, dataStart ≤ used ∧ last.image (dataStart - 2) = bitmap used := by
    refine .bind (.get (.bind (ends_assert (fun works => absurd trivial works) fun _ => ?_)))
    refine .andThen (Grows.each (fun _ => Grows.wsect) _ State.start) fun _ state₁ le₁ => ?_
    refine .andThen (Grows.wsect state₁) fun _ state₂ le₂ => ?_
    refine .andThen (Grows.makeRoot state₂) fun root state₃ le₃ => ?_
    refine .andThen (Grows.each (fun _ => Grows.addFile) inputs state₃) fun _ state₄ le₄ => ?_
    refine .andThen (Grows.bind Grows.rsect (fun _ => Grows.pure) state₄) fun din state₅ le₅ => ?_
    refine .andThen (Grows.winode state₅) fun _ state₆ le₆ => ?_
    refine .bind (.get (.bind (ends_assert (fun works => absurd trivial works) fun _ => ?_)))
    refine .modify ⟨state₆.usedblocks, ?_, ?_⟩
    · have start : State.start.usedblocks = dataStart := rfl
      omega
    · dsimp only
      rw [show ninodes / ipb + 3 = dataStart - 2 from rfl, Function.update_self]
  exact spec.ends_of_returns returns fun _ _ => trivial

/-- In the bitmap the first blocks are in use. -/
theorem bit_bitmap (used : Nat) {number : Nat} (inside : number < 4096) :
    (bitmap used).bit number = decide (number < used) := by
  induction used with
  | zero => exact Block.bit_zero number
  | succ used ih =>
    rw [bitmap, range_succ, foldl_append]
    refine (Block.bit_setBit _ inside true).trans ?_
    by_cases isLast : number = used
    · rw [if_pos isLast, isLast, decide_eq_true (Nat.lt_succ_self used)]
    rw [if_neg isLast]
    refine ih.trans ?_
    rw [decide_eq_decide]
    omega

/-- The bitmap block, taken for an inode, has the largest size there is. -/
theorem size_bitmap {used : Nat} (many : dataStart ≤ used) :
    (Dinode.ofBlock (bitmap used)).size = BitVec.allOnes 32 := by
  rw [dataStart_eq] at many
  apply BitVec.eq_of_getLsbD_eq
  intro bit inside
  have isSet := bit_bitmap used (show 32 * 2 + bit < 4096 by omega)
  rw [decide_eq_true (by omega)] at isSet
  rw [BitVec.getLsbD_allOnes]
  refine (Block.getLsbD_cell 32 (bitmap used) 2 bit).trans ?_
  rw [decide_eq_true inside]
  exact isSet

/-! ## Addresses below the size -/

/-- Every inode of an image up to a number has a block address for every block index
below its size. -/
def CoversSizes (image : Nat → Block) (count : Nat) : Prop :=
  ∀ inum, 1 ≤ inum → inum ≤ count →
    ∀ bn, bn < ((Dinode.ofBlock (image (iblock inum))).size.toNat + bsize - 1) / bsize →
      (Dinode.ofBlock (image (iblock inum))).address image (placeOf bn) ≠ 0

theorem lt_blocks_iff {bn size : Nat} : bn < (size + bsize - 1) / bsize ↔ bn * bsize < size := by
  unfold bsize
  omega

namespace Made

variable {image : Nat → Block} {files : Files} (made : Made image files inputs)

include made

/-- The places of an inode of the image. -/
theorem address_eq (allocated : files.Allocated inum) (place : Nat) :
    (Dinode.ofBlock (image (iblock inum))).address image place = files.address (inum, place) := by
  rw [made.node inum allocated.1, address_of_allocated allocated]
  refine Dinode.address_congr (fun _ => rfl) fun _ => ⟨rfl, fun present => made.block _ ?_⟩
  have owned : files.address (inum, 124) ≠ 0 := by
    rw [address_of_allocated allocated]
    exact fun zero => present (BitVec.eq_of_toNat_eq zero)
  have isData := (made.owns.mem owned).1
  rwa [address_of_allocated allocated, Dinode.address_indirect] at isData

theorem root_allocated : files.Allocated rootino := by
  obtain ⟨addrs, node⟩ := made.root
  refine ⟨by decide, ?_⟩
  rw [node]
  show tDir ≠ 0
  decide

variable (few : inputs.length < ninodes)
include few

theorem root_size :
    (files.node rootino).size.toNat = (16 * (inputs.length + 2) / bsize + 1) * bsize := by
  obtain ⟨addrs, node⟩ := made.root
  rw [node]
  refine toNat_ofNat_of_lt ?_
  unfold ninodes at few
  unfold bsize
  omega

/-- The root directory has a block for all of its size, unless its entries end with a
block. -/
theorem coversRoot_iff :
    (∀ bn, bn * bsize < (files.node rootino).size.toNat →
      files.address (rootino, placeOf bn) ≠ 0) ↔ (inputs.length + 2) % 32 ≠ 0 := by
  rw [made.root_size few]
  constructor
  · intro covers
    have last := (made.covered.data _).mp (covers (16 * (inputs.length + 2) / bsize)
      (by unfold bsize; omega))
    unfold bsize at last
    omega
  · intro partly bn below
    refine (made.covered.data bn).mpr ?_
    unfold bsize at *
    omega

theorem coversSizes_iff : CoversSizes image (inputs.length + 1) ↔ (inputs.length + 2) % 32 ≠ 0 := by
  rw [← made.coversRoot_iff few]
  constructor
  · intro covers bn below
    rw [← made.address_eq made.root_allocated]
    refine covers rootino (Nat.le_refl _) (Nat.succ_le_succ (Nat.zero_le _)) bn ?_
    rw [made.node _ made.root_allocated.1, lt_blocks_iff]
    exact below
  · intro covers inum positive inside bn below
    by_cases isRoot : inum = rootino
    · subst isRoot
      rw [made.node _ made.root_allocated.1, lt_blocks_iff] at below
      rw [made.address_eq made.root_allocated]
      exact covers bn below
    · have isFile : inum - 2 < inputs.length := by
        unfold rootino at isRoot
        omega
      have stored := made.stored (inum - 2) _ (getElem?_eq_getElem isFile)
      rw [show inum - 2 + 2 = inum by unfold rootino at isRoot; omega] at stored
      obtain ⟨addrs, node⟩ := stored.node
      rw [made.node _ stored.inside, lt_blocks_iff, node] at below
      rw [made.address_eq stored.allocated]
      refine (stored.covered.data bn).mpr ?_
      rwa [toNat_ofNat_of_lt (lt_of_le_of_lt stored.covered.le (by decide))] at below

end Made

/-- The image of every accepted list of files covers the sizes of its inodes just if
there is an inode block for each file and the root directory does not end with a
block. -/
theorem coversSizes_image_iff {inputs : List Input} {last : State} {events : List Empty}
    (accepted : Returns (main inputs) State.start () last events) :
    CoversSizes last.image (inputs.length + 1) ↔
      inputs.length < ninodes ∧ (inputs.length + 2) % 32 ≠ 0 := by
  by_cases few : inputs.length < ninodes
  · obtain ⟨files, made⟩ := made_of_returns few accepted
    rw [made.coversSizes_iff few]
    exact ⟨fun partly => ⟨few, partly⟩, And.right⟩
  · refine ⟨fun covers => ?_, fun both => absurd both.1 few⟩
    -- the inode of the two hundredth file lies where the bitmap is written
    obtain ⟨used, many, isBitmap⟩ := exists_bitmap accepted
    have sector : iblock (ninodes + 1) = dataStart - 2 := rfl
    have address := covers (ninodes + 1) (by decide) (by omega) maxfile
      (by
        rw [sector, isBitmap, size_bitmap many]
        decide)
    exact absurd (Dinode.address_eq_zero_of_ge _ _ (by decide)) address

/-- A file of two bytes. -/
def smallInput : Input where
  arg := [97]
  reads := [[104, 105]]
  string := by decide
  sizes := by decide

/-- An image with one file covers the file and its root directory. -/
theorem small_image_covers :
    ∃ last, Returns (main [smallInput]) State.start () last [] ∧ CoversSizes last.image 2 := by
  have fits : Fits [smallInput] := ⟨by decide, by decide, by decide, by decide⟩
  obtain ⟨last, files, accepted, -⟩ := exists_made fits
  exact ⟨last, accepted, (coversSizes_image_iff accepted).mpr ⟨by decide, by decide⟩⟩

/-- Thirty empty files with names of one letter. -/
def thirtyFiles : List Input :=
  (List.finRange 30).map fun letter : Fin 30 =>
    { arg := [UInt8.ofNat (97 + letter.val)]
      reads := []
      string := by
        revert letter
        decide
      sizes := Input.sizes_nil }

/-- With thirty files the entries of the root directory fill a block, and its size names
a block that it does not have. -/
theorem thirtyFiles_uncovered :
    ∃ last, Returns (main thirtyFiles) State.start () last [] ∧
      ¬ CoversSizes last.image (thirtyFiles.length + 1) := by
  have fits : Fits thirtyFiles := ⟨by decide, by decide, by decide, by decide⟩
  obtain ⟨last, files, accepted, made⟩ := exists_made fits
  refine ⟨last, accepted, fun covers => ?_⟩
  exact (made.coversSizes_iff fits.few).mp covers rfl

end XEditor.Fs.Mkfs
