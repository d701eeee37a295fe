import XEditor.Fs.Inode

/-!
# Directories

The lookup of a name in source `fs.c`.  Names are the bytes before a NUL, at most
`DIRSIZ` of them.
-/

namespace XEditor.Fs

open Program
open Kernel (Name)

/-- Source `ROOTINO`. -/
def rootino : Nat := 1

/-- Read the directory entry at an offset.  The check of the length is that of the
caller, which panics. -/
def readDirent (dp : InodePtr) (off : Nat) (message : Panic) : Code Volume Dirent := do
  match ← readi none dp off direntSize with
  | none => panic message
  | some bytes =>
    if bytes.length ≠ direntSize then panic message else pure (.ofBytes bytes)

/-- Source `namecmp`, on the bytes of an entry. -/
def namecmp (name : Name) (bytes : List UInt8) : Bool :=
  name == cstring bytes

/-- The offsets of the entries of a directory of a size, from one on. -/
def direntOffsets (first size : Nat) : List Nat :=
  (List.range' first ((size + direntSize - 1) / direntSize - first)).map (direntSize * ·)

/-- The loop of `dirlookup`, over the remaining offsets. -/
def dirlookupLoop (dp : InodePtr) (name : Name) :
    List Nat → Code Volume (Option (InodePtr × Nat))
  | [] => pure none
  | off :: rest => do
    let de ← readDirent dp off .dirlinkRead
    if de.inum = 0 then dirlookupLoop dp name rest
    else if namecmp name de.name then
      let ip ← iget de.inum.toNat
      pure (some (ip, off))
    else dirlookupLoop dp name rest

/-- Source `dirlookup`: the inode and the offset of its entry. -/
def dirlookup (dp : InodePtr) (name : Name) : Code Volume (Option (InodePtr × Nat)) := do
  let inode ← getInode dp
  if inode.copy.type ≠ tDir then panic .dirlookupNotDir
  else dirlookupLoop dp name (direntOffsets 0 inode.copy.size.toNat)

end XEditor.Fs
