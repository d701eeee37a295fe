import XEditor.Fs.Dir
import XEditor.Fs.Files

/-!
# Making a file system

Source `mkfs.c`.  The image is a file of sectors, and a sector beyond its end cannot
be read.  An input file is given by its argument and by what the calls of `read`
return for it.
-/

namespace XEditor.Fs

open List Program
open Kernel (Name slash)

/-- An input file: the argument, a C string, and what each call of `read` returns. -/
structure Input where
  arg : List UInt8
  reads : List (List UInt8)
  string : 0 ∉ arg
  sizes : ∀ chunk ∈ reads, chunk ≠ [] ∧ chunk.length ≤ bsize

namespace Input

/-- An empty file is read without a chunk. -/
theorem sizes_nil : ∀ chunk ∈ ([] : List (List UInt8)), chunk ≠ [] ∧ chunk.length ≤ bsize :=
  fun _ isRead => (not_mem_nil isRead).elim

/-- The name of the file in the image: a leading underscore is skipped. -/
def name (file : Input) : Name :=
  if file.arg.head? = some 95 then file.arg.tail else file.arg

/-- The bytes of the file. -/
def bytes (file : Input) : List UInt8 :=
  file.reads.flatten

end Input

namespace Mkfs

/-! ## Source -/

/-- The image file and the counters of `mkfs.c`. -/
structure State where
  image : Nat → Block
  length : Nat
  freeblock : Nat
  usedblocks : Nat
  freeinode : Nat

/-- How `mkfs` fails: an assertion, or an error of the host that makes it exit. -/
inductive Failure where
  | assertion
  | exit
  deriving DecidableEq, Repr

/-- Code of `mkfs`. -/
abbrev Host (α : Type) := Program State Failure Empty α

/-- Source `assert`. -/
def assert (condition : Prop) [Decidable condition] : Host Unit :=
  if condition then pure () else halt .assertion

/-- Source `wsect`. -/
def wsect (sec : Nat) (buf : Block) : Host Unit :=
  Program.modify fun state =>
    { state with
      image := Function.update state.image sec buf
      length := max state.length (sec + 1) }

/-- Source `rsect`. -/
def rsect (sec : Nat) : Host Block := do
  let state ← Program.get
  if sec < state.length then pure (state.image sec) else halt .exit

/-- Source `i2b`. -/
def i2b (inum : Nat) : Nat :=
  inum / ipb + 2

/-- Source `winode`. -/
def winode (inum : Nat) (din : Dinode) : Host Unit := do
  let buf ← rsect (i2b inum)
  wsect (i2b inum) (din.store buf)

/-- Source `rinode`. -/
def rinode (inum : Nat) : Host Dinode := do
  let buf ← rsect (i2b inum)
  pure (.ofBlock buf)

/-- Source `ialloc`. -/
def ialloc (type : BitVec 16) : Host Nat := do
  let state ← Program.get
  Program.modify fun state => { state with freeinode := state.freeinode + 1 }
  winode state.freeinode { Dinode.fresh type with nlink := 1 }
  pure state.freeinode

/-- The bitmap block in which the first blocks are in use. -/
def bitmap (used : Nat) : Block :=
  (List.range used).foldl (fun buf index => buf.setBit index true) Block.zero

/-- Source `balloc`. -/
def balloc (used : Nat) : Host Unit := do
  assert (used < bsize * 8)
  wsect (ninodes / ipb + 3) (bitmap used)

/-- `freeblock++` and `usedblocks++`. -/
def newBlock : Host Nat := do
  let state ← Program.get
  Program.modify fun state =>
    { state with freeblock := state.freeblock + 1, usedblocks := state.usedblocks + 1 }
  pure state.freeblock

/-- Give an inode a block where it has none. -/
def addBlock (din : Dinode) (index : Fin 125) : Host Dinode :=
  if din.addrs index = 0 then do
    let number ← newBlock
    pure { din with addrs := Function.update din.addrs index (BitVec.ofNat 32 number) }
  else pure din

/-- The entry of an indirect block, which gets a block where it has none. -/
def mapEntry (sec index : Nat) : Host Nat := do
  let indirect ← rsect sec
  let indirect ←
    if indirect.word index = 0 then do
      let number ← newBlock
      let indirect := indirect.setWord index (BitVec.ofNat 32 number)
      wsect sec indirect
      pure indirect
    else pure indirect
  pure (indirect.word index).toNat

/-- The first part of the loop of `iappend`: the block of the file, and the inode with
the blocks it got. -/
def mapBlock (din : Dinode) (fbn : Nat) : Host (Dinode × Nat) :=
  if direct : fbn < ndirect then do
    let index : Fin 125 := ⟨fbn, lt_addrs direct⟩
    let din ← addBlock din index
    pure (din, (din.addrs index).toNat)
  else do
    let din ← addBlock din 124
    let x ← mapEntry (din.addrs 124).toNat (fbn - ndirect)
    pure (din, x)

/-- The loop of `iappend`. -/
def iappendLoop : Nat → Dinode → Nat → List UInt8 → Host (Dinode × Nat)
  | 0, din, off, _ => pure (din, off)
  | fuel + 1, din, off, p =>
    if p = [] then pure (din, off)
    else do
      let fbn := off / bsize
      assert (fbn < maxfile)
      let (din, x) ← mapBlock din fbn
      let n1 := min p.length ((fbn + 1) * bsize - off)
      let buf ← rsect x
      wsect x (buf.setBytes (off - fbn * bsize) (p.take n1))
      iappendLoop fuel din (off + n1) (p.drop n1)

/-- Source `iappend`. -/
def iappend (inum : Nat) (p : List UInt8) : Host Unit := do
  let din ← rinode inum
  let (din, off) ← iappendLoop p.length din din.size.toNat p
  winode inum { din with size := BitVec.ofNat 32 off }

/-- The bytes of the directory entry that `main` appends. -/
def direntBytes (inum : Nat) (name : Name) : List UInt8 :=
  Dirent.toBytes ⟨BitVec.ofNat 16 inum, padded name⟩

/-- The body of the loop of `main`. -/
def addFile (root : Nat) (file : Input) : Host Unit := do
  assert (slash ∉ file.arg)
  let inum ← ialloc tFile
  iappend root (direntBytes inum file.name)
  each (iappend inum) file.reads

/-- The super block that `main` writes. -/
def superblock : Block :=
  (((Block.zero.setWord 0 (BitVec.ofNat 32 fssize)).setWord 1 (BitVec.ofNat 32 nblocks)).setWord 2
    (BitVec.ofNat 32 ninodes)).setWord 3 (BitVec.ofNat 32 nlog)

/-- The part of `main` that makes the root directory with its first two entries. -/
def makeRoot : Host Nat := do
  let root ← ialloc tDir
  assert (root = rootino)
  iappend root (direntBytes root [46])
  iappend root (direntBytes root [46, 46])
  pure root

/-- The end of `main`: the size of the root directory is rounded up and the bitmap is
written. -/
def finish (root : Nat) : Host Unit := do
  let din ← rinode root
  winode root { din with size := BitVec.ofNat 32 ((din.size.toNat / bsize + 1) * bsize) }
  let state ← Program.get
  balloc state.usedblocks

/-- Source `main`. -/
def main (files : List Input) : Host Unit := do
  let state ← Program.get
  assert (nblocks + state.usedblocks + nlog = fssize)
  each (fun sec => wsect sec Block.zero) (List.range (nblocks + state.usedblocks + nlog))
  wsect 1 superblock
  let root ← makeRoot
  each (addFile root) files
  finish root

/-- The globals of `mkfs.c` and an empty image file. -/
def State.start : State where
  image := fun _ => Block.zero
  length := 0
  freeblock := dataStart
  usedblocks := dataStart
  freeinode := 1

end Mkfs

end XEditor.Fs
