import XEditor.Fs.Layout

/-!
# Blocks and inodes

Source `fs.c` up to reading the contents of files.  The inode cache has `NINODE`
entries, and a pointer to one is its index.  In-memory inodes keep their fields
apart from the on-disk ones, which `ilock` reads.
-/

namespace XEditor.Fs

open Program

/-! ## The block allocator -/

/-- Source `bzero`. -/
def bzero (block : Nat) : Code Store Unit := do
  let _ ← bread block
  logWrite block Block.zero
  brelse block

/-- The first clear bit from an index on, among so many. -/
def clearBit (bitmap : Block) (index : Nat) : Nat → Option Nat
  | 0 => none
  | count + 1 => if bitmap.bit index then clearBit bitmap (index + 1) count else some index

/-- The outer loop of `balloc`, over the numbers of its remaining iterations.  The block
found is reported with the state in which `balloc` was called. -/
def ballocLoop (before : Store) (superblock : Superblock) : List Nat → Code Store Nat
  | [] => panic .ballocOutOfBlocks
  | iteration :: rest => do
    let base := bpb * iteration
    let sector := bblock base superblock.ninodes.toNat
    let bitmap ← bread sector
    match clearBit bitmap 0 (min bpb (superblock.size.toNat - base)) with
    | some bit => do
      Program.report (.alloc before (base + bit))
      logWrite sector (bitmap.setBit bit true)
      brelse sector
      bzero (base + bit)
      pure (base + bit)
    | none => do
      brelse sector
      ballocLoop before superblock rest

/-- Source `balloc`. -/
def balloc : Code Store Nat := do
  let before ← Program.get
  let superblock ← readsb
  ballocLoop before superblock (List.range ((superblock.size.toNat + bpb - 1) / bpb))

/-! ## The inode cache -/

/-- Source `NINODE`. -/
def ninode : Nat := 50

/-- A pointer to an entry of the inode cache. -/
abbrev InodePtr := Fin ninode

/-- `struct inode`: the flags, and the fields copied from the disk. -/
structure Inode where
  inum : Nat
  ref : Nat
  busy : Bool
  valid : Bool
  copy : Dinode

/-- The store and the inode cache. -/
structure Volume where
  store : Store
  inodes : InodePtr → Inode

/-- The store is a part of the volume. -/
def Volume.storePart : Part Volume Store where
  get := Volume.store
  set := fun volume store => { volume with store }

instance : MonadLift (Program Store Halt Event) (Program Volume Halt Event) where
  monadLift := Program.on Volume.storePart

namespace Volume

/-- An entry of the inode cache changes. -/
def setInode (volume : Volume) (ip : InodePtr) (inode : Inode) : Volume :=
  { volume with inodes := Function.update volume.inodes ip inode }

end Volume

/-- Change an entry of the inode cache. -/
def modifyInode (ip : InodePtr) (change : Inode → Inode) : Code Volume Unit :=
  Program.modify fun volume => volume.setInode ip (change (volume.inodes ip))

/-- Change the fields of an in-memory inode. -/
def modifyCopy (ip : InodePtr) (change : Dinode → Dinode) : Code Volume Unit :=
  modifyInode ip fun inode => { inode with copy := change inode.copy }

/-- The in-memory inode. -/
def getInode (ip : InodePtr) : Code Volume Inode := do
  let volume ← Program.get
  pure (volume.inodes ip)

/-- Source `iget`. -/
def iget (inum : Nat) : Code Volume InodePtr := do
  let volume ← Program.get
  match (List.finRange ninode).find? fun ip =>
      decide (0 < (volume.inodes ip).ref) && decide ((volume.inodes ip).inum = inum) with
  | some ip => do
    modifyInode ip fun inode => { inode with ref := inode.ref + 1 }
    pure ip
  | none =>
    match (List.finRange ninode).find? fun ip => decide ((volume.inodes ip).ref = 0) with
    | none => panic .igetNoInodes
    | some ip => do
      modifyInode ip fun inode => { inode with inum, ref := 1, busy := false, valid := false }
      pure ip

/-- Source `ilock`. -/
def ilock (ip : InodePtr) : Code Volume Unit := do
  let inode ← getInode ip
  if inode.ref < 1 then panic .ilock
  else if inode.busy then halt .sleep
  else do
    modifyInode ip fun inode => { inode with busy := true }
    if !inode.valid then
      let data ← bread (iblock inode.inum)
      modifyInode ip fun inode => { inode with copy := .ofBlock data }
      brelse (iblock inode.inum)
      modifyInode ip fun inode => { inode with valid := true }
      if (Dinode.ofBlock data).type = 0 then panic .ilockNoType

/-- Source `iunlock`. -/
def iunlock (ip : InodePtr) : Code Volume Unit := do
  let inode ← getInode ip
  if !inode.busy || inode.ref < 1 then panic .iunlock
  else modifyInode ip fun inode => { inode with busy := false }

/-! ## Contents -/

/-- Source `bmap`. -/
def bmap (ip : InodePtr) (bn : Nat) : Code Volume Nat := do
  let inode ← getInode ip
  if inside : bn < ndirect then
    let index : Fin 125 := ⟨bn, lt_addrs inside⟩
    if inode.copy.addrs index = 0 then
      let block ← balloc
      modifyCopy ip fun copy =>
        { copy with addrs := Function.update copy.addrs index (BitVec.ofNat 32 block) }
      pure block
    else
      pure (inode.copy.addrs index).toNat
  else if bn - ndirect < nindirect then
    let indirect ←
      if inode.copy.addrs 124 = 0 then do
        let block ← balloc
        modifyCopy ip fun copy =>
          { copy with addrs := Function.update copy.addrs 124 (BitVec.ofNat 32 block) }
        pure block
      else
        pure (inode.copy.addrs 124).toNat
    let data ← bread indirect
    let addr ←
      if data.word (bn - ndirect) = 0 then do
        let block ← balloc
        logWrite indirect (data.setWord (bn - ndirect) (BitVec.ofNat 32 block))
        pure block
      else
        pure (data.word (bn - ndirect)).toNat
    brelse indirect
    pure addr
  else
    panic .bmapOutOfRange

/-- The major number of the only device with read and write functions. -/
def console : BitVec 16 := 1

/-- The loop of `readi`. -/
def readiLoop (ip : InodePtr) : Nat → Nat → Nat → Code Volume (List UInt8)
  | 0, _, _ => pure []
  | fuel + 1, off, n =>
    if n = 0 then pure []
    else do
      let block ← bmap ip (off / bsize)
      let data ← bread block
      let m := min n (bsize - off % bsize)
      brelse block
      let rest ← readiLoop ip fuel (off + m) (n - m)
      pure (data.bytes (off % bsize) m ++ rest)

/-- Source `readi`: the bytes read, or nothing for the result -1.  What a device
returns is an argument. -/
def readi (device : Option (List UInt8)) (ip : InodePtr) (off n : Nat) :
    Code Volume (Option (List UInt8)) := do
  let inode ← getInode ip
  if inode.copy.type = tDev then
    pure (if inode.copy.major = console then device else none)
  else
    let size := inode.copy.size.toNat
    if size < off ∨ (off + n) % 2 ^ 32 < off then pure none
    else do
      let n := if size < off + n then size - off else n
      let bytes ← readiLoop ip n off n
      pure (some bytes)

end XEditor.Fs
