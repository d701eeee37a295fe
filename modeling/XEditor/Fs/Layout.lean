import XEditor.Fs.Log
import XEditor.Kernel.Path

/-!
# The layout of the file system

Source `fs.h`: on-disk inodes, the free bitmap and directory entries.  With
`NDIRECT` 124 an on-disk inode is as large as a block.
-/

namespace XEditor.Fs

open Option Block
open Kernel (dirsiz)

/-! ## Source -/

/-- Source `NDIRECT`. -/
def ndirect : Nat := 124

/-- Source `NINDIRECT`. -/
def nindirect : Nat := 128

/-- Source `MAXFILE`. -/
def maxfile : Nat := ndirect + nindirect

/-- Source `IPB`. -/
def ipb : Nat := 1

/-- Source `IBLOCK`. -/
def iblock (inum : Nat) : Nat :=
  inum / ipb + 2

/-- Source `BPB`. -/
def bpb : Nat := bsize * 8

/-- Source `BBLOCK`. -/
def bblock (block ninodes : Nat) : Nat :=
  block / bpb + ninodes / ipb + 3

/-- The blocks of an image, `size` in `mkfs.c`. -/
def fssize : Nat := 4272

/-- The data blocks of an image, `nblocks` in `mkfs.c`. -/
def nblocks : Nat := 4057

/-- The inodes of an image, `ninodes` in `mkfs.c`. -/
def ninodes : Nat := 200

/-- The log blocks of an image, `nlog` in `mkfs.c`. -/
def nlog : Nat := logsize

/-- The bitmap blocks of an image, `bitblocks` in `mkfs.c`. -/
def bitblocks : Nat := fssize / (bsize * 8) + 1

/-- The first data block of an image, at first `usedblocks` in `mkfs.c`. -/
def dataStart : Nat := ninodes / ipb + 3 + bitblocks

/-- Source `T_DIR`. -/
def tDir : BitVec 16 := 1

/-- Source `T_FILE`. -/
def tFile : BitVec 16 := 2

/-- Source `T_DEV`. -/
def tDev : BitVec 16 := 3

/-- `struct dinode`. -/
@[ext]
structure Dinode where
  type : BitVec 16
  major : BitVec 16
  minor : BitVec 16
  nlink : BitVec 16
  size : BitVec 32
  addrs : Fin 125 → BitVec 32

/-- The place of the indirect block is written as a number. -/
instance neZero_addrs : NeZero 125 :=
  ⟨by decide⟩

theorem lt_addrs {bn : Nat} (direct : bn < ndirect) : bn < 125 :=
  Nat.lt_succ_of_lt direct

namespace Dinode

/-- The bytes of a block as an on-disk inode. -/
def ofBlock (block : Block) : Dinode where
  type := block.half 0
  major := block.half 1
  minor := block.half 2
  nlink := block.half 3
  size := block.word 2
  addrs := fun index => block.word (3 + index)

/-- Write the fields of an on-disk inode into a block. -/
def store (dinode : Dinode) (block : Block) : Block :=
  (((((block.setHalf 0 dinode.type).setHalf 1 dinode.major).setHalf 2 dinode.minor).setHalf 3
    dinode.nlink).setWord 2 dinode.size).setWords 3 (List.ofFn dinode.addrs)

/-- A zeroed inode with a type, as `ialloc` writes it. -/
def fresh (type : BitVec 16) : Dinode where
  type := type
  major := 0
  minor := 0
  nlink := 0
  size := 0
  addrs := fun _ => 0

end Dinode

/-- `struct dirent`. -/
structure Dirent where
  inum : BitVec 16
  name : List UInt8
  deriving DecidableEq

/-- The size of a directory entry in bytes. -/
def direntSize : Nat := 16

namespace Dirent

/-- Sixteen bytes as a directory entry. -/
def ofBytes (bytes : List UInt8) : Dirent where
  inum := (bytes.getD 1 0).toBitVec ++ (bytes.getD 0 0).toBitVec
  name := (bytes.drop 2).take dirsiz

/-- The bytes of a directory entry. -/
def toBytes (entry : Dirent) : List UInt8 :=
  UInt8.ofBitVec (entry.inum.extractLsb' 0 8) :: UInt8.ofBitVec (entry.inum.extractLsb' 8 8) ::
    entry.name

end Dirent

/-- The bytes of a C string before its NUL. -/
def cstring (bytes : List UInt8) : List UInt8 :=
  bytes.takeWhile (· != 0)

/-- Source `strncpy` with `DIRSIZ`: the name, padded with NULs. -/
def padded (name : List UInt8) : List UInt8 :=
  name.take dirsiz ++ List.replicate (dirsiz - name.length) 0

theorem iblock_eq (inum : Nat) : iblock inum = inum + 2 := by
  rw [iblock, ipb, Nat.div_one]

theorem dataStart_eq : dataStart = 205 :=
  rfl

/-! ## Round trips -/

variable {index position : Nat}

namespace Block

theorem cell_setWords_of_le {width : Nat} (block : Block)
    (before : width * position + width ≤ 32 * index) (inside : width * position + width ≤ 4096)
    (values : List (BitVec 32)) :
    (block.setWords index values).cell width position = block.cell width position := by
  induction values generalizing block index with
  | nil => rfl
  | cons value values ih =>
    rw [setWords, ih _ (by omega), setWord, cell_setCell_of_disjoint block inside (.inl before)]

theorem half_setHalf_self (block : Block) (inside : index < 256) (value : BitVec 16) :
    (block.setHalf index value).half index = value :=
  cell_setCell_self block (by omega) value

theorem half_setHalf_of_ne (block : Block) (inside : position < 256) (different : position ≠ index)
    (value : BitVec 16) : (block.setHalf index value).half position = block.half position :=
  cell_setCell_of_ne block (by omega) different value

theorem half_setWord_of_lt (block : Block) (before : position < 2 * index) (inside : position < 256)
    (value : BitVec 32) : (block.setWord index value).half position = block.half position :=
  cell_setCell_of_disjoint block (by omega) (.inl (by omega)) value

end Block

theorem Dinode.ofBlock_store (dinode : Dinode) (block : Block) :
    Dinode.ofBlock (dinode.store block) = dinode := by
  have half {index : Nat} (inside : index < 4) : (dinode.store block).half index =
      ((((block.setHalf 0 dinode.type).setHalf 1 dinode.major).setHalf 2 dinode.minor).setHalf 3
        dinode.nlink).half index := by
    rw [store, half, cell_setWords_of_le _ (by omega) (by omega)]
    exact half_setWord_of_lt _ (by omega) (by omega) _
  refine Dinode.ext ?_ ?_ ?_ ?_ ?_ (funext fun index => ?_)
  · show (dinode.store block).half 0 = _
    rw [half (by omega), half_setHalf_of_ne _ (by omega) (by omega),
      half_setHalf_of_ne _ (by omega) (by omega),
      half_setHalf_of_ne _ (by omega) (by omega), half_setHalf_self _ (by omega)]
  · show (dinode.store block).half 1 = _
    rw [half (by omega), half_setHalf_of_ne _ (by omega) (by omega),
      half_setHalf_of_ne _ (by omega) (by omega), half_setHalf_self _ (by omega)]
  · show (dinode.store block).half 2 = _
    rw [half (by omega), half_setHalf_of_ne _ (by omega) (by omega), half_setHalf_self _ (by omega)]
  · show (dinode.store block).half 3 = _
    rw [half (by omega), half_setHalf_self _ (by omega)]
  · show (dinode.store block).word 2 = _
    rw [store, word_setWords _ _ (by omega), if_neg (by omega), word_setWord_self _ (by omega)]
  · show (dinode.store block).word (3 + index) = _
    rw [store, word_setWords _ _ (by omega), if_pos (by omega), Nat.add_sub_cancel_left,
      List.getElem?_ofFn, dif_pos index.isLt, getD_some]

end XEditor.Fs
