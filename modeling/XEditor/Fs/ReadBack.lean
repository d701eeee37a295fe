import XEditor.Fs.FreshImage

/-!
# The kernel reads what `mkfs` stored

`mkfs` writes blocks, inodes and directory entries on the host, the kernel reads them
with `dirlookup` and `readi`.  On an image of `mkfs` the kernel finds every file in the
root directory and reads its bytes at every offset.
-/

namespace XEditor.Fs

open List Option Program Volume
open Kernel (Name)

/-! ## Directory entries -/

variable {entry : Dirent} {index : Nat} {file : Input}

theorem Dirent.ofBytes_toBytes (length : entry.name.length = Kernel.dirsiz) :
    Dirent.ofBytes entry.toBytes = entry := by
  rw [Dirent.ofBytes, Dirent.mk.injEq]
  constructor
  · apply BitVec.eq_of_getLsbD_eq
    intro bit inside
    simp only [toBytes, getD_cons_zero, getD_cons_succ, UInt8.toBitVec_ofBitVec,
      BitVec.getLsbD_append, BitVec.getLsbD_extractLsb']
    by_cases low : bit < 8
    · simp [low]
    · have high : bit - 8 < 8 := by omega
      have whole : 8 + (bit - 8) = bit := by omega
      simp [low, high, whole]
  · rw [toBytes, drop_succ_cons, drop_succ_cons, drop_zero, ← length, take_length]

/-- A short name is read back from its padded form. -/
theorem cstring_padded {name : Name} (short : name.length ≤ Kernel.dirsiz) (string : 0 ∉ name) :
    cstring (padded name) = name := by
  rw [padded, take_of_length_le short, cstring, takeWhile_append_of_pos]
  · simp
  intro byte isByte
  rw [bne_iff_ne]
  rintro rfl
  exact string isByte

variable {size inum : Nat}

/-- Pieces of the same length are found again in the whole. -/
theorem take_drop_flatten {pieces : List (List UInt8)}
    (lengths : ∀ piece ∈ pieces, piece.length = size) {piece : List UInt8}
    (isPiece : pieces[index]? = some piece) :
    (pieces.flatten.drop (size * index)).take size = piece := by
  induction pieces generalizing index with
  | nil => simp at isPiece
  | cons first rest ih =>
    have length := lengths first mem_cons_self
    cases index with
    | zero =>
      rw [getElem?_cons_zero, some.injEq] at isPiece
      rw [flatten_cons, Nat.mul_zero, drop_zero, ← length, take_left', isPiece]
      rfl
    | succ index =>
      rw [flatten_cons, Nat.mul_succ, Nat.add_comm, ← drop_drop, drop_left' length]
      exact ih (fun other isOther => lengths other (mem_cons_of_mem _ isOther)) isPiece

/-- Bytes read one by one are a part of the whole. -/
theorem map_getD_range {bytes : List UInt8} {offset count : Nat}
    (inside : offset + count ≤ bytes.length) :
    (List.range count).map (fun index => bytes.getD (offset + index) 0) =
      (bytes.drop offset).take count := by
  apply ext_getElem
  · rw [length_map, length_range, length_take, length_drop]
    omega
  · intro index before after
    rw [length_map, length_range] at before
    rw [getElem_map, getElem_range, getElem_take, getElem_drop, getD_eq_getElem _ _ (by omega)]

namespace Mkfs

/-- The entries of files with consecutive inode numbers. -/
def fileEntries (inum : Nat) : List Input → List Dirent
  | [] => []
  | file :: files => ⟨BitVec.ofNat 16 inum, padded file.name⟩ :: fileEntries (inum + 1) files

/-- The entries of the root directory. -/
def rootEntries (files : List Input) : List Dirent :=
  ⟨BitVec.ofNat 16 rootino, padded [46]⟩ :: ⟨BitVec.ofNat 16 rootino, padded [46, 46]⟩ ::
    fileEntries 2 files

theorem rootBytes_eq (files : List Input) :
    rootBytes files = ((rootEntries files).map Dirent.toBytes).flatten := by
  have entries (inum : Nat) :
      entriesFrom inum files = ((fileEntries inum files).map Dirent.toBytes).flatten := by
    induction files generalizing inum with
    | nil => rfl
    | cons file files ih =>
      rw [entriesFrom, ih]
      rfl
  rw [rootBytes, entries, rootEntries, map_cons, map_cons]
  rfl

theorem getElem?_fileEntries (inum : Nat) (files : List Input) (index : Nat) :
    (fileEntries inum files)[index]? = files[index]?.map fun file =>
      ⟨BitVec.ofNat 16 (inum + index), padded file.name⟩ := by
  induction files generalizing inum index with
  | nil => rfl
  | cons file files ih =>
    cases index with
    | zero => rfl
    | succ index =>
      rw [fileEntries, getElem?_cons_succ, ih, getElem?_cons_succ, Nat.add_assoc, Nat.add_comm 1]

theorem length_rootEntries (files : List Input) :
    (rootEntries files).length = files.length + 2 := by
  have entries (inum : Nat) : (fileEntries inum files).length = files.length := by
    induction files generalizing inum with
    | nil => rfl
    | cons file files ih => rw [fileEntries, length_cons, ih, length_cons]
  rw [rootEntries, length_cons, length_cons, entries]

theorem length_name_fileEntries {files : List Input} (isEntry : entry ∈ fileEntries inum files) :
    entry.name.length = Kernel.dirsiz := by
  induction files generalizing inum with
  | nil => cases isEntry
  | cons file files ih =>
    rcases mem_cons.mp isEntry with rfl | isLater
    · exact length_padded _
    · exact ih isLater

/-- Every entry has a padded name. -/
theorem length_name_of_mem {files : List Input} (isEntry : entry ∈ rootEntries files) :
    entry.name.length = Kernel.dirsiz := by
  rcases mem_cons.mp isEntry with rfl | isLater
  · exact length_padded _
  · rcases mem_cons.mp isLater with rfl | isFile
    · exact length_padded _
    · exact length_name_fileEntries isFile

end Mkfs

/-! ## A fresh volume -/

/-- A volume shows an image, and no buffer is held or dirty. -/
structure Volume.Idle (volume : Volume) (image : Nat → Block) : Prop where
  view : volume.device.view = image
  held : volume.device.held = ∅
  pinned : volume.device.pinned = ∅

/-- A kernel that uses an image and has nothing open. -/
structure Volume.Fresh (volume : Volume) (image : Nat → Block) : Prop where
  idle : volume.Idle image
  unused : ∀ ip, (volume.inodes ip).ref = 0

namespace Volume.Idle

variable {volume : Volume} {image : Nat → Block} (idle : volume.Idle image)

include idle

theorem congr {other : Volume} (device : other.device = volume.device) : other.Idle image :=
  ⟨by rw [device, idle.view], by rw [device, idle.held], by rw [device, idle.pinned]⟩

/-- Any block can be read. -/
theorem canRead (sector : Nat) : volume.CanRead sector := by
  refine ⟨by simp [idle.held], ?_⟩
  rw [idle.held, idle.pinned]
  simp [nbuf]

theorem canReadFile (dinode : Dinode) (offset count : Nat) :
    volume.CanReadFile dinode offset count :=
  ⟨idle.canRead _, fun _ _ _ => idle.canRead _⟩

end Volume.Idle

namespace Mkfs.Made

variable {image : Nat → Block} {files : Files} {inputs : List Input}

/-- Bytes of an inode of the image. -/
theorem byteAt_eq (made : Made image files inputs) (allocated : files.Allocated inum)
    {position : Nat} (present : files.address (inum, placeOf (position / bsize)) ≠ 0) :
    (Dinode.ofBlock (image (iblock inum))).byteAt image position = files.byteAt inum position := by
  rw [Dinode.byteAt, made.address_eq allocated, Files.byteAt,
    made.block _ (made.owns.mem present).1]

/-- The entries of the root directory of the image. -/
theorem direntAt_eq (made : Made image files inputs)
    (isEntry : (rootEntries inputs)[index]? = some entry) :
    (Dinode.ofBlock (image (iblock rootino))).direntAt image (direntSize * index) = entry := by
  have inside : index < inputs.length + 2 := by
    rw [← length_rootEntries]
    exact (List.getElem?_eq_some_iff.mp isEntry).1
  have rootLength := length_rootBytes inputs
  have bytes : (Dinode.ofBlock (image (iblock rootino))).read image (direntSize * index)
      direntSize = entry.toBytes := by
    calc (Dinode.ofBlock (image (iblock rootino))).read image (direntSize * index) direntSize
        = (List.range direntSize).map fun byte =>
            (rootBytes inputs).getD (direntSize * index + byte) 0 := by
          refine map_congr_left fun byte isByte => ?_
          have before := mem_range.mp isByte
          have position : direntSize * index + byte < 16 * (inputs.length + 2) := by
            unfold direntSize at *
            omega
          rw [made.byteAt_eq made.root_allocated (made.covered.present position),
            made.contents _ position]
      _ = ((rootBytes inputs).drop (direntSize * index)).take direntSize :=
          map_getD_range (by unfold direntSize; omega)
      _ = entry.toBytes := by
          rw [rootBytes_eq]
          refine take_drop_flatten ?_ (by rw [getElem?_map, isEntry]; rfl)
          intro piece isPiece
          obtain ⟨other, isOther, rfl⟩ := List.mem_map.mp isPiece
          rw [Dirent.toBytes, length_cons, length_cons, length_name_of_mem isOther]
          rfl
  rw [Dinode.direntAt, bytes]
  exact Dirent.ofBytes_toBytes (length_name_of_mem (mem_of_getElem? isEntry))

end Mkfs.Made

/-! ## Lookup and read -/

/-- Look a name up in the root directory, and read from the file: its size, and the result
of `readi`. -/
def lookupAndRead (name : Name) (off n : Nat) :
    Code Volume (Option (BitVec 32 × Option (List UInt8))) := do
  let dp ← iget rootino
  ilock dp
  match ← dirlookup dp name with
  | none => pure none
  | some (ip, _) => do
    iunlock dp
    ilock ip
    let inode ← getInode ip
    let bytes ← readi none ip off n
    pure (some (inode.copy.size, bytes))

theorem Input.zero_notMem_name (file : Input) : 0 ∉ file.name := by
  unfold Input.name
  split
  · exact fun isByte => file.string (mem_of_mem_tail isByte)
  · exact file.string

namespace Mkfs

/-- The names of files are distinct, not empty, at most as long as the name of a directory
entry, and none is that of one of the first two entries. -/
structure GoodNames (inputs : List Input) : Prop where
  distinct : (inputs.map Input.name).Nodup
  nonempty : ∀ file ∈ inputs, file.name ≠ []
  short : ∀ file ∈ inputs, file.name.length ≤ Kernel.dirsiz
  notDot : ∀ file ∈ inputs, file.name ≠ [46]
  notDotDot : ∀ file ∈ inputs, file.name ≠ [46, 46]

/-- An entry of the root directory has the name of a file only if it is the entry of the
file. -/
theorem names_rootEntries_iff {inputs : List Input} (good : GoodNames inputs) {index place : Nat}
    (isFile : inputs[index]? = some file) (few : inputs.length < ninodes)
    (isEntry : (rootEntries inputs)[place]? = some entry) :
    entry.Names file.name ↔ place = index + 2 := by
  have isMem := mem_of_getElem? isFile
  match place with
  | 0 =>
    cases isEntry
    refine ⟨fun named => absurd ?_ (good.notDot file isMem), fun same => by omega⟩
    exact (beq_iff_eq.mp named.2).trans (cstring_padded (by decide) (by decide))
  | 1 =>
    rw [rootEntries, getElem?_cons_succ, getElem?_cons_zero, some.injEq] at isEntry
    subst isEntry
    refine ⟨fun named => absurd ?_ (good.notDotDot file isMem), fun same => by omega⟩
    exact (beq_iff_eq.mp named.2).trans (cstring_padded (by decide) (by decide))
  | place + 2 =>
    rw [rootEntries, getElem?_cons_succ, getElem?_cons_succ, getElem?_fileEntries] at isEntry
    obtain ⟨other, isOther, rfl⟩ := map_eq_some_iff.mp isEntry
    have isMem' := mem_of_getElem? isOther
    obtain ⟨inside, -⟩ := List.getElem?_eq_some_iff.mp isOther
    have name := cstring_padded (good.short other isMem') other.zero_notMem_name
    constructor
    · rintro ⟨-, named⟩
      have same : file.name = other.name := (beq_iff_eq.mp named).trans name
      have first : (inputs.map Input.name)[index]? = some file.name := by
        rw [getElem?_map, isFile]
        rfl
      have second : (inputs.map Input.name)[place]? = some file.name := by
        rw [getElem?_map, isOther, same]
        rfl
      obtain ⟨bound, -⟩ := List.getElem?_eq_some_iff.mp first
      rw [(List.getElem?_inj bound good.distinct).mp (first.trans second.symm)]
    · intro samePlace
      have same : place = index := by omega
      subst same
      rw [isFile] at isOther
      cases isOther
      refine ⟨fun zero => ?_, beq_iff_eq.mpr name.symm⟩
      have := congrArg BitVec.toNat zero
      rw [BitVec.toNat_ofNat, Nat.mod_eq_of_lt (by unfold ninodes at few; omega)] at this
      simp at this

end Mkfs

/-- The offsets of the entries of a directory, split at one of them. -/
theorem direntOffsets_split {index : Nat} (inside : direntSize * index < size) :
    ∃ rest, direntOffsets 0 size =
      (List.range index).map (direntSize * ·) ++ direntSize * index :: rest := by
  have count : index < (size + direntSize - 1) / direntSize := by
    unfold direntSize at *
    omega
  obtain ⟨more, isMore⟩ := Nat.exists_eq_add_of_lt count
  refine ⟨(List.range' (index + 1) more).map (direntSize * ·), ?_⟩
  rw [direntOffsets, Nat.sub_zero, isMore, Nat.add_assoc, ← List.range'_append_1, map_append,
    range_eq_range', Nat.zero_add, List.range'_succ, map_cons]

/-- `dirlookup` of a name that only one entry has. -/
theorem dirlookup_returns (volume : Volume) (dp : InodePtr) (name : Name) {limit index : Nat}
    (can : volume.CanReadDir (volume.inodes dp).copy limit)
    (inside : direntSize * index + direntSize ≤ limit)
    (others : ∀ place < index, ¬ ((volume.inodes dp).copy.direntAt volume.device.view
      (direntSize * place)).Names name)
    (named : ((volume.inodes dp).copy.direntAt volume.device.view
      (direntSize * index)).Names name) :
    ∃ bio : Bio, bio.device = volume.device ∧ ∀ ip last,
      Returns (iget ((volume.inodes dp).copy.direntAt volume.device.view
        (direntSize * index)).inum.toNat) (volume.setBio bio) ip last [] →
      Returns (dirlookup dp name) volume (some (ip, direntSize * index)) last [] := by
  have limitLe := can.inside
  obtain ⟨rest, split⟩ := direntOffsets_split
    (show direntSize * index < (volume.inodes dp).copy.size.toNat by
      unfold direntSize at *
      omega)
  obtain ⟨bio₁, device₁, skips⟩ := dirlookupLoop_skip volume dp name can
    ((List.range index).map (direntSize * ·)) (direntSize * index :: rest)
    (by
      intro off isOff
      obtain ⟨place, isPlace, rfl⟩ := List.mem_map.mp isOff
      have before := mem_range.mp isPlace
      unfold direntSize at *
      omega)
    (by
      intro off isOff
      obtain ⟨place, isPlace, rfl⟩ := List.mem_map.mp isOff
      exact others place (mem_range.mp isPlace))
  obtain ⟨bio₂, device₂, finds⟩ := dirlookupLoop_found (volume.setBio bio₁) dp name
    (can.congr device₁) rest inside (by rw [device_setBio, device₁]; exact named)
  rw [device_setBio, device₁] at device₂ finds
  refine ⟨bio₂, device₂, fun ip last gets => ?_⟩
  refine Returns.step (getInode_returns volume dp) ?_ rfl
  rw [if_neg (by simp [can.type]), split]
  unfold Returns
  rw [skips, finds]
  exact Returns.step gets .pure rfl

theorem iunlock_returns (volume : Volume) (ip : InodePtr) (busy : (volume.inodes ip).busy = true)
    (used : 1 ≤ (volume.inodes ip).ref) :
    Returns (iunlock ip) volume ()
      (volume.setInode ip { volume.inodes ip with busy := false }) [] := by
  refine Returns.step (getInode_returns volume ip) ?_ rfl
  rw [if_neg (by simp [busy]; omega)]
  exact modifyInode_returns ..

namespace Mkfs.Made

variable {image : Nat → Block} {files : Files} {inputs : List Input} {volume : Volume}
  (made : Made image files inputs)

include made

/-- The entries of the root directory can be read. -/
theorem canReadRoot (few : inputs.length < ninodes) (idle : volume.Idle image) :
    volume.CanReadDir (.ofBlock (image (iblock rootino))) (16 * (inputs.length + 2)) := by
  refine ⟨?_, ?_, ?_, idle.canReadFile _ _ _⟩
  · obtain ⟨addrs, node⟩ := made.root
    rw [made.node _ made.root_allocated.1, node]
  · rw [made.node _ made.root_allocated.1, made.root_size few]
    unfold bsize
    omega
  · intro bn before _
    rw [idle.view, made.address_eq made.root_allocated]
    exact (made.covered.data bn).mpr (by omega)

/-- A file of the image is read at every offset. -/
theorem readi_returns_file (isFile : inputs[index]? = some file) (ip : InodePtr)
    (copy : (volume.inodes ip).copy = .ofBlock (image (iblock (index + 2))))
    (idle : volume.Idle image) (off n : BitVec 32) :
    ∃ last, Returns (readi none ip off.toNat n.toNat) volume
      (if file.bytes.length < off.toNat ∨ 2 ^ 32 ≤ off.toNat + n.toNat then none
        else some ((file.bytes.drop off.toNat).take n.toNat)) last [] := by
  have stored := made.stored index file isFile
  obtain ⟨addrs, node⟩ := stored.node
  have isNode : (volume.inodes ip).copy = files.node (index + 2) :=
    copy.trans (made.node _ stored.inside)
  have size : (volume.inodes ip).copy.size.toNat = file.bytes.length := by
    rw [isNode, node]
    exact Files.toNat_ofNat_of_lt (lt_of_le_of_lt stored.covered.le (by decide))
  have type : (volume.inodes ip).copy.type ≠ tDev := by
    rw [isNode, node]
    show tFile ≠ tDev
    decide
  by_cases outside : file.bytes.length < off.toNat ∨ 2 ^ 32 ≤ off.toNat + n.toNat
  · refine ⟨volume, ?_⟩
    rw [if_pos outside]
    refine readi_returns_none volume none ip type ?_
    omega
  · rw [if_neg outside]
    obtain ⟨bio, reads, -⟩ := readi_returns volume none ip off.toNat n.toNat type
      (by omega) (by omega)
      (by
        intro bn before after
        rw [idle.view, copy, made.address_eq stored.allocated]
        exact (stored.covered.data bn).mpr (by omega))
      (idle.canReadFile _ _ _)
    refine ⟨volume.setBio bio, ?_⟩
    have bytes : (volume.inodes ip).copy.read volume.device.view off.toNat
        (min n.toNat ((volume.inodes ip).copy.size.toNat - off.toNat)) =
        (file.bytes.drop off.toNat).take n.toNat := by
      rw [size, idle.view, copy]
      calc _ = (List.range (min n.toNat (file.bytes.length - off.toNat))).map fun position =>
              file.bytes.getD (off.toNat + position) 0 := by
            refine map_congr_left fun position isPosition => ?_
            have before := mem_range.mp isPosition
            have inside : off.toNat + position < file.bytes.length := by omega
            rw [made.byteAt_eq stored.allocated (stored.covered.present inside),
              stored.contents _ inside]
        _ = (file.bytes.drop off.toNat).take (min n.toNat (file.bytes.length - off.toNat)) :=
            map_getD_range (by omega)
        _ = (file.bytes.drop off.toNat).take n.toNat := by
            rw [← length_drop]
            exact take_eq_take_min.symm
    rwa [bytes] at reads

/-- The root directory is taken into the inode cache and locked. -/
theorem lockRoot (fresh : volume.Fresh image) :
    ∃ dp taken locked, Returns (iget rootino) volume dp taken [] ∧
      Returns (ilock dp) taken () locked [] ∧ locked.Idle image ∧
      (locked.inodes dp).inum = rootino ∧ (locked.inodes dp).ref = 1 ∧
      (locked.inodes dp).busy = true ∧
      (locked.inodes dp).copy = .ofBlock (image (iblock rootino)) ∧
      ∀ ip, ip ≠ dp → (locked.inodes ip).ref = 0 := by
  obtain ⟨dp, -, gets⟩ := iget_returns volume
    (fun ip used => absurd (fresh.unused ip) (by omega)) ⟨⟨0, by decide⟩, fresh.unused _⟩
  set taken := volume.setInode dp { volume.inodes dp with
    inum := rootino, ref := 1, busy := false, valid := false } with isTaken
  have idle : taken.Idle image := fresh.idle.congr rfl
  have inode : taken.inodes dp = { volume.inodes dp with
      inum := rootino, ref := 1, busy := false, valid := false } :=
    inodes_setInode_self ..
  obtain ⟨bio, locks, device⟩ := ilock_returns taken dp (by rw [inode]) (by rw [inode])
    (by rw [inode]) (idle.canRead _)
    (by
      rw [inode, idle.view, made.node _ made.root_allocated.1]
      exact made.root_allocated.2)
  refine ⟨dp, taken, _, gets, locks, idle.congr device, ?_, ?_, ?_, ?_, ?_⟩
  · rw [inodes_setInode_self, inode]
  · rw [inodes_setInode_self, inode]
  · rw [inodes_setInode_self]
  · rw [inodes_setInode_self, inode, idle.view]
  · intro ip different
    rw [inodes_setInode_of_ne _ different, inodes_setBio, isTaken,
      inodes_setInode_of_ne _ different, fresh.unused ip]

variable (few : inputs.length < ninodes) (good : GoodNames inputs)
  (isFile : inputs[index]? = some file)
include few good isFile

/-- The name of a file is found at its entry, and its inode is taken into the cache. -/
theorem lookupFile (idle : volume.Idle image) {dp : InodePtr}
    (isRoot : (volume.inodes dp).inum = rootino) (used : (volume.inodes dp).ref = 1)
    (copy : (volume.inodes dp).copy = .ofBlock (image (iblock rootino)))
    (others : ∀ ip, ip ≠ dp → (volume.inodes ip).ref = 0) :
    ∃ ip last,
      Returns (dirlookup dp file.name) volume (some (ip, direntSize * (index + 2))) last [] ∧
      last.Idle image ∧ ip ≠ dp ∧ last.inodes dp = volume.inodes dp ∧
      (last.inodes ip).inum = index + 2 ∧ (last.inodes ip).ref = 1 ∧
      (last.inodes ip).busy = false ∧ (last.inodes ip).valid = false := by
  obtain ⟨inside, -⟩ := List.getElem?_eq_some_iff.mp isFile
  have isEntry : (rootEntries inputs)[index + 2]? =
      some ⟨BitVec.ofNat 16 (2 + index), padded file.name⟩ := by
    rw [rootEntries, getElem?_cons_succ, getElem?_cons_succ, getElem?_fileEntries, isFile]
    rfl
  have inum : ((volume.inodes dp).copy.direntAt volume.device.view
      (direntSize * (index + 2))).inum.toNat = index + 2 := by
    rw [copy, idle.view, made.direntAt_eq isEntry, BitVec.toNat_ofNat,
      Nat.mod_eq_of_lt (by unfold ninodes at few; omega), Nat.add_comm]
  obtain ⟨bio, device, looks⟩ := dirlookup_returns volume dp file.name
    (by rw [copy]; exact made.canReadRoot few idle)
    (show direntSize * (index + 2) + direntSize ≤ 16 * (inputs.length + 2) by
      unfold direntSize
      omega)
    (by
      intro place before
      have bound : place < (rootEntries inputs).length := by
        rw [length_rootEntries]
        omega
      have isOther := getElem?_eq_getElem bound
      rw [copy, idle.view, made.direntAt_eq isOther, names_rootEntries_iff good isFile few isOther]
      omega)
    (by
      rw [copy, idle.view, made.direntAt_eq isEntry]
      exact (names_rootEntries_iff good isFile few isEntry).mpr rfl)
  rw [inum] at looks
  obtain ⟨other, different⟩ : ∃ ip : InodePtr, ip ≠ dp := by
    by_cases zero : dp = ⟨0, by decide⟩
    · exact ⟨⟨1, by decide⟩, by rw [zero]; decide⟩
    · exact ⟨⟨0, by decide⟩, fun same => zero same.symm⟩
  obtain ⟨ip, unused, gets⟩ := iget_returns (volume.setBio bio)
    (show ∀ ip, 0 < ((volume.setBio bio).inodes ip).ref →
        ((volume.setBio bio).inodes ip).inum ≠ index + 2 by
      intro ip isUsed
      rw [inodes_setBio] at isUsed ⊢
      by_cases same : ip = dp
      · rw [same, isRoot]
        unfold rootino
        omega
      · rw [others ip same] at isUsed
        omega)
    ⟨other, others other different⟩
  have distinct : ip ≠ dp := by
    rintro rfl
    rw [inodes_setBio] at unused
    omega
  refine ⟨ip, _, looks ip _ gets, idle.congr device, distinct, ?_, ?_⟩
  · rw [inodes_setInode_of_ne _ distinct.symm, inodes_setBio]
  · rw [inodes_setInode_self]
    exact ⟨rfl, rfl, rfl, rfl⟩

/-- The kernel finds a file of the image and reads it. -/
theorem lookupAndRead_returns (fresh : volume.Fresh image) (off n : BitVec 32) :
    ∃ last, Returns (lookupAndRead file.name off.toNat n.toNat) volume
      (some (BitVec.ofNat 32 file.bytes.length,
        if file.bytes.length < off.toNat ∨ 2 ^ 32 ≤ off.toNat + n.toNat then none
        else some ((file.bytes.drop off.toNat).take n.toNat))) last [] := by
  have stored := made.stored index file isFile
  obtain ⟨dp, taken, locked, gets, locks, idle, isRoot, used, busy, copy, others⟩ :=
    made.lockRoot fresh
  obtain ⟨ip, found, looks, idle', distinct, root, isInum, used', notBusy, notValid⟩ :=
    made.lookupFile few good isFile idle isRoot used copy others
  have unlocks := iunlock_returns found dp (by rw [root, busy]) (by rw [root, used])
  set unlocked := found.setInode dp { found.inodes dp with busy := false } with isUnlocked
  have idle'' : unlocked.Idle image := idle'.congr rfl
  have inode : unlocked.inodes ip = found.inodes ip := inodes_setInode_of_ne _ distinct _
  have node : Dinode.ofBlock (unlocked.device.view (iblock (unlocked.inodes ip).inum)) =
      files.node (index + 2) := by
    rw [inode, isInum, idle''.view, made.node _ stored.inside]
  obtain ⟨bio, locks', device⟩ := ilock_returns unlocked ip (by rw [inode, used'])
    (by rw [inode, notBusy]) (by rw [inode, notValid]) (idle''.canRead _)
    (by rw [node]; exact stored.allocated.2)
  set open' := (unlocked.setBio bio).setInode ip { unlocked.inodes ip with
    busy := true, valid := true
    copy := .ofBlock (unlocked.device.view (iblock (unlocked.inodes ip).inum)) } with isOpen
  have copy' : (open'.inodes ip).copy = .ofBlock (image (iblock (index + 2))) := by
    rw [inodes_setInode_self, idle''.view, inode, isInum]
  obtain ⟨last, reads⟩ := made.readi_returns_file isFile ip copy' (idle''.congr device) off n
  refine ⟨last, ?_⟩
  have size : (open'.inodes ip).copy.size = BitVec.ofNat 32 file.bytes.length := by
    obtain ⟨addrs, isNode⟩ := stored.node
    rw [copy', made.node _ stored.inside, isNode]
  refine Returns.step gets ?_ rfl
  refine Returns.step locks ?_ rfl
  refine Returns.step looks ?_ rfl
  refine Returns.step unlocks ?_ rfl
  refine Returns.step locks' ?_ rfl
  refine Returns.step (getInode_returns open' ip) ?_ rfl
  refine Returns.step reads ?_ rfl
  rw [size]
  exact .pure

end Mkfs.Made

/-- For every list of files that fit, `mkfs` makes an image, and a kernel that uses the
image finds every file by its name in the root directory and reads its size and, at
every offset, its bytes. -/
theorem mkfs_readBack {inputs : List Input} (fits : Mkfs.Fits inputs)
    (good : Mkfs.GoodNames inputs) :
    ∃ last, Returns (Mkfs.main inputs) Mkfs.State.start () last [] ∧
      ∀ file ∈ inputs, ∀ volume : Volume, volume.Fresh last.image → ∀ off n : BitVec 32,
        ∃ later, Returns (lookupAndRead file.name off.toNat n.toNat) volume
          (some (BitVec.ofNat 32 file.bytes.length,
            if file.bytes.length < off.toNat ∨ 2 ^ 32 ≤ off.toNat + n.toNat then none
            else some ((file.bytes.drop off.toNat).take n.toNat))) later [] := by
  obtain ⟨last, files, accepted, made⟩ := Mkfs.exists_made fits
  refine ⟨last, accepted, fun file isFile volume fresh off n => ?_⟩
  obtain ⟨index, isIndex⟩ := mem_iff_getElem?.mp isFile
  exact made.lookupAndRead_returns fits.few good isIndex fresh off n

/-- A file whose argument has an underscore and whose bytes come in two reads, and an empty
one. -/
def twoInputs : List Input :=
  [{ arg := [95, 97], reads := [[104], [105]], string := by decide, sizes := by decide },
    { arg := [98], reads := [], string := by decide, sizes := Input.sizes_nil }]

/-- The volume of a kernel that has just started on an image. -/
def Volume.boot (image : Nat → Block) : Volume where
  store := .boot image
  inodes := fun _ => ⟨0, 0, false, false, .ofBlock 0⟩

theorem Volume.boot_fresh (image : Nat → Block) : (Volume.boot image).Fresh image where
  idle := ⟨congrArg Device.view (Bio.device_boot image),
    congrArg Device.held (Bio.device_boot image), congrArg Device.pinned (Bio.device_boot image)⟩
  unused := fun _ => rfl

/-- A kernel started on the image reads back the second byte of the first file. -/
theorem mkfs_readBack_twoInputs :
    ∃ last, Returns (Mkfs.main twoInputs) Mkfs.State.start () last [] ∧
      (Volume.boot last.image).Fresh last.image ∧
      ∃ later, Returns (lookupAndRead [97] 1 5) (.boot last.image) (some (2, some [105]))
        later [] := by
  obtain ⟨last, accepted, reads⟩ := mkfs_readBack
    (show Mkfs.Fits twoInputs from ⟨by decide, by decide, by decide, by decide⟩)
    ⟨by decide, by decide, by decide, by decide, by decide⟩
  have fresh := Volume.boot_fresh last.image
  exact ⟨last, accepted, fresh, reads _ mem_cons_self _ fresh 1 5⟩

end XEditor.Fs
