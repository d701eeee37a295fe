import XEditor.Fs.Dir
import XEditor.Fs.Files

/-!
# Reading files and directories

What the functions of `fs.c` return when the part of a file that they read has
blocks.  They change nothing but the order of the buffers then: the device below
the buffer cache, the log and the inode cache stay as they are.
-/

namespace XEditor.Fs

open List Function Program Volume
open Kernel (Name)

/-! ## The contents of an inode -/

namespace Dinode

/-- The byte of a file at a position. -/
def byteAt (dinode : Dinode) (block : Nat → Block) (position : Nat) : UInt8 :=
  (block (dinode.address block (placeOf (position / bsize)))).byte (position % bsize)

/-- Bytes of a file. -/
def read (dinode : Dinode) (block : Nat → Block) (offset count : Nat) : List UInt8 :=
  (List.range count).map fun index => dinode.byteAt block (offset + index)

section

variable (dinode : Dinode) (block : Nat → Block)

theorem read_add (offset first second : Nat) :
    dinode.read block offset (first + second) =
      dinode.read block offset first ++ dinode.read block (offset + first) second := by
  simp only [read, range_add, map_append, map_map, comp_def, Nat.add_assoc]

/-- Bytes inside one block. -/
theorem read_eq_bytes {offset count : Nat} (fits : offset % bsize + count ≤ bsize) :
    dinode.read block offset count =
      (block (dinode.address block (placeOf (offset / bsize)))).bytes (offset % bsize) count := by
  refine map_congr_left fun index isIndex => ?_
  have inside := mem_range.mp isIndex
  have here : (offset + index) / bsize = offset / bsize ∧
      (offset + index) % bsize = offset % bsize + index := by
    unfold bsize at *
    omega
  rw [byteAt, here.1, here.2]

end

/-- Every block in a part of a file is there. -/
def Present (dinode : Dinode) (block : Nat → Block) (offset count : Nat) : Prop :=
  ∀ bn, bn * bsize < offset + count → offset < (bn + 1) * bsize →
    dinode.address block (placeOf bn) ≠ 0

/-- The directory entry at an offset. -/
def direntAt (dinode : Dinode) (block : Nat → Block) (off : Nat) : Dirent :=
  .ofBytes (dinode.read block off direntSize)

end Dinode

/-! ## Steps of the volume -/

namespace Volume

/-- The device below the buffer cache. -/
def device (volume : Volume) : Device :=
  volume.store.bio.device

/-- The buffers change. -/
def setBio (volume : Volume) (bio : Bio) : Volume :=
  { volume with store := { volume.store with bio } }

section

variable (volume : Volume)

@[simp]
theorem device_setBio (bio : Bio) : (volume.setBio bio).device = bio.device :=
  rfl

@[simp]
theorem inodes_setBio (bio : Bio) : (volume.setBio bio).inodes = volume.inodes :=
  rfl

@[simp]
theorem inodes_setInode_self (ip : InodePtr) (inode : Inode) :
    (volume.setInode ip inode).inodes ip = inode :=
  update_self ..

theorem inodes_setInode_of_ne {ip other : InodePtr} (different : other ≠ ip) (inode : Inode) :
    (volume.setInode ip inode).inodes other = volume.inodes other :=
  update_of_ne different _ _

end

/-- A block can be read now: it is not held and there is a buffer for it. -/
structure CanRead (volume : Volume) (sector : Nat) : Prop where
  free : sector ∉ volume.device.held
  room : (insert sector (volume.device.held ∪ volume.device.pinned)).card ≤ nbuf

end Volume

theorem getInode_returns (volume : Volume) (ip : InodePtr) :
    Returns (getInode ip) volume (volume.inodes ip) volume [] :=
  Returns.step .get .pure rfl

theorem modifyInode_returns (volume : Volume) (ip : InodePtr) (change : Inode → Inode) :
    Returns (modifyInode ip change) volume () (volume.setInode ip (change (volume.inodes ip))) [] :=
  .modify

variable {sector limit : Nat}

theorem bread_returns_volume (volume : Volume) (can : volume.CanRead sector) :
    ∃ bio, Returns (liftM (bread sector) : Code Volume Block) volume
        (volume.device.view sector) (volume.setBio bio) [] ∧
      bio.device = volume.device.hold sector := by
  obtain ⟨bio, reads, device⟩ := bread_returns volume.store.bio sector can.free can.room
  exact ⟨bio, Returns.on (Returns.on reads), device⟩

theorem brelse_returns_volume (volume : Volume) (isHeld : sector ∈ volume.device.held) :
    ∃ bio, Returns (liftM (brelse sector) : Code Volume Unit) volume () (volume.setBio bio) [] ∧
      bio.device = volume.device.release sector := by
  obtain ⟨bio, releases, device⟩ := brelse_returns volume.store.bio sector isHeld
  exact ⟨bio, Returns.on (Returns.on releases), device⟩

/-- A block that is read and given back. -/
theorem bread_brelse_returns (volume : Volume) (can : volume.CanRead sector) :
    ∃ held last,
      Returns (liftM (bread sector) : Code Volume Block) volume (volume.device.view sector)
        (volume.setBio held) [] ∧
      Returns (liftM (brelse sector) : Code Volume Unit) (volume.setBio held) ()
        (volume.setBio last) [] ∧
      last.device = volume.device := by
  obtain ⟨held, reads, device⟩ := bread_returns_volume volume can
  obtain ⟨last, releases, device'⟩ := brelse_returns_volume (volume.setBio held)
    (by rw [device_setBio, device]; exact Finset.mem_insert_self _ _)
  refine ⟨held, last, reads, releases, ?_⟩
  rw [device', device_setBio, device]
  refine Device.ext rfl rfl ?_ rfl
  exact Finset.erase_insert can.free

/-! ## Contents -/

/-- `bmap` of a block that is there. -/
theorem bmap_returns (volume : Volume) (ip : InodePtr) {bn : Nat}
    (present : (volume.inodes ip).copy.address volume.device.view (placeOf bn) ≠ 0)
    (can : ndirect ≤ bn → volume.CanRead ((volume.inodes ip).copy.addrs 124).toNat) :
    ∃ bio, Returns (bmap ip bn) volume
        ((volume.inodes ip).copy.address volume.device.view (placeOf bn)) (volume.setBio bio) [] ∧
      bio.device = volume.device := by
  set copy := (volume.inodes ip).copy with isCopy
  have inside := Dinode.lt_of_address_ne_zero present
  by_cases direct : bn < ndirect
  · have place : placeOf bn = bn := if_pos direct
    rw [place] at present ⊢
    have direct' : bn < 125 := Nat.lt_succ_of_lt direct
    rw [Dinode.address_of_lt _ _ direct'] at present ⊢
    refine ⟨volume.store.bio, Returns.step (getInode_returns volume ip) ?_ rfl, rfl⟩
    rw [dif_pos direct, if_neg (fun zero => present (by rw [zero]; rfl))]
    exact .pure
  · have place : placeOf bn = bn + 1 := if_neg direct
    rw [place] at present inside ⊢
    have indirect : 125 ≤ bn + 1 := by
      unfold ndirect at direct
      omega
    have nonzero : copy.addrs 124 ≠ 0 := fun absent =>
      present (Dinode.address_eq_zero_of_absent _ _ indirect absent)
    obtain ⟨held, last, reads, releases, device⟩ :=
      bread_brelse_returns volume (can (Nat.le_of_not_lt direct))
    have word : copy.address volume.device.view (bn + 1) =
        ((volume.device.view (copy.addrs 124).toNat).word (bn - ndirect)).toNat := by
      rw [Dinode.address_of_ge _ _ indirect inside nonzero]
      congr 2
    rw [word] at present ⊢
    refine ⟨last, Returns.step (getInode_returns volume ip) ?_ rfl, device⟩
    rw [dif_neg direct, if_neg nonzero, if_pos (by unfold nindirect ndirect at *; omega)]
    refine Returns.step .pure ?_ rfl
    refine Returns.step reads ?_ rfl
    rw [if_neg (fun zero => present (by rw [zero]; rfl))]
    refine Returns.step .pure ?_ rfl
    exact Returns.step releases .pure rfl

/-- The blocks that a read of a part of a file needs can be read. -/
structure Volume.CanReadFile (volume : Volume) (dinode : Dinode) (offset count : Nat) : Prop where
  indirect : volume.CanRead (dinode.addrs 124).toNat
  blocks : ∀ bn, bn * bsize < offset + count → offset < (bn + 1) * bsize →
    volume.CanRead (dinode.address volume.device.view (placeOf bn))

theorem readiLoop_returns (volume : Volume) (ip : InodePtr) (fuel off n : Nat) (enough : n ≤ fuel)
    (present : (volume.inodes ip).copy.Present volume.device.view off n)
    (can : volume.CanReadFile (volume.inodes ip).copy off n) :
    ∃ bio, Returns (readiLoop ip fuel off n) volume
        ((volume.inodes ip).copy.read volume.device.view off n) (volume.setBio bio) [] ∧
      bio.device = volume.device := by
  induction fuel generalizing volume off n with
  | zero =>
    rw [Nat.le_zero.mp enough]
    exact ⟨volume.store.bio, .pure, rfl⟩
  | succ fuel ih =>
    by_cases done : n = 0
    · subst done
      refine ⟨volume.store.bio, ?_, rfl⟩
      exact .pure
    · rw [readiLoop, if_neg done]
      have inBlock : off % bsize < bsize := Nat.mod_lt _ (by decide)
      have here : off / bsize * bsize < off + n ∧ off < (off / bsize + 1) * bsize := by
        unfold bsize at *
        omega
      obtain ⟨bio₁, maps, device₁⟩ := bmap_returns volume ip (present _ here.1 here.2)
        fun _ => can.indirect
      have can₁ : (volume.setBio bio₁).CanRead
          ((volume.inodes ip).copy.address volume.device.view (placeOf (off / bsize))) := by
        have := can.blocks _ here.1 here.2
        exact ⟨by rw [device_setBio, device₁]; exact this.free,
          by rw [device_setBio, device₁]; exact this.room⟩
      obtain ⟨bio₂, bio₃, reads, releases, device₃⟩ :=
        bread_brelse_returns (volume.setBio bio₁) can₁
      rw [device_setBio, device₁] at reads device₃
      set m := min n (bsize - off % bsize) with isM
      obtain ⟨bio₄, rest, device₄⟩ := ih (volume.setBio bio₃) (off + m) (n - m) (by omega)
        (by
          rw [device_setBio, device₃]
          intro bn before after
          exact present bn (by omega) (by omega))
        (by
          constructor
          · exact ⟨by rw [device_setBio, device₃]; exact can.indirect.free,
              by rw [device_setBio, device₃]; exact can.indirect.room⟩
          intro bn before after
          have := can.blocks bn (by omega) (by omega)
          exact ⟨by rw [device_setBio, device₃]; exact this.free,
            by rw [device_setBio, device₃]; exact this.room⟩)
      rw [device_setBio, device₃] at rest device₄
      refine ⟨bio₄, ?_, device₄⟩
      have bytes : (volume.inodes ip).copy.read volume.device.view off n =
          (volume.device.view ((volume.inodes ip).copy.address volume.device.view
            (placeOf (off / bsize)))).bytes (off % bsize) m ++
          (volume.inodes ip).copy.read volume.device.view (off + m) (n - m) := by
        rw [← Dinode.read_eq_bytes _ _ (by omega), ← Dinode.read_add]
        congr 1
        omega
      rw [bytes]
      refine Returns.step maps ?_ rfl
      refine Returns.step reads ?_ rfl
      refine Returns.step releases ?_ rfl
      exact Returns.step rest .pure rfl

/-- `readi` of a file that is no device. -/
theorem readi_returns (volume : Volume) (device : Option (List UInt8)) (ip : InodePtr)
    (off n : Nat) (type : (volume.inodes ip).copy.type ≠ tDev)
    (inside : off ≤ (volume.inodes ip).copy.size.toNat) (small : off + n < 2 ^ 32)
    (present : (volume.inodes ip).copy.Present volume.device.view off
      (min n ((volume.inodes ip).copy.size.toNat - off)))
    (can : volume.CanReadFile (volume.inodes ip).copy off
      (min n ((volume.inodes ip).copy.size.toNat - off))) :
    ∃ bio, Returns (readi device ip off n) volume
        (some ((volume.inodes ip).copy.read volume.device.view off
          (min n ((volume.inodes ip).copy.size.toNat - off)))) (volume.setBio bio) [] ∧
      bio.device = volume.device := by
  have cut : (if (volume.inodes ip).copy.size.toNat < off + n then
      (volume.inodes ip).copy.size.toNat - off else n) =
      min n ((volume.inodes ip).copy.size.toNat - off) := by
    split <;> omega
  obtain ⟨bio, reads, device⟩ := readiLoop_returns volume ip _ off _ (Nat.le_refl _) present can
  refine ⟨bio, Returns.step (getInode_returns volume ip) ?_ rfl, device⟩
  rw [if_neg type, if_neg (by rw [Nat.mod_eq_of_lt small]; omega)]
  rw [cut]
  exact Returns.step reads .pure rfl

variable {off : Nat}

theorem readi_returns_none (volume : Volume) (device : Option (List UInt8)) (ip : InodePtr)
    {n : Nat} (type : (volume.inodes ip).copy.type ≠ tDev)
    (outside : (volume.inodes ip).copy.size.toNat < off ∨ (off + n) % 2 ^ 32 < off) :
    Returns (readi device ip off n) volume none volume [] := by
  refine Returns.step (getInode_returns volume ip) ?_ rfl
  rw [if_neg type, if_pos outside]
  exact .pure

/-! ## Directories -/

/-- The entries of a directory before a limit can be read: their blocks are there. -/
structure Volume.CanReadDir (volume : Volume) (dinode : Dinode) (limit : Nat) : Prop where
  type : dinode.type = tDir
  inside : limit ≤ dinode.size.toNat
  present : dinode.Present volume.device.view 0 limit
  can : volume.CanReadFile dinode 0 limit

theorem Volume.CanReadDir.congr {volume : Volume} {dinode : Dinode}
    (can : volume.CanReadDir dinode limit) {bio : Bio} (device : bio.device = volume.device) :
    (volume.setBio bio).CanReadDir dinode limit := by
  have congr {sector : Nat} (can : volume.CanRead sector) : (volume.setBio bio).CanRead sector :=
    ⟨by rw [device_setBio, device]; exact can.free,
      by rw [device_setBio, device]; exact can.room⟩
  refine ⟨can.type, can.inside, ?_, congr can.can.indirect, ?_⟩
  · rw [device_setBio, device]
    exact can.present
  · intro bn before after
    rw [device_setBio, device]
    exact congr (can.can.blocks bn before after)

theorem readDirent_returns (volume : Volume) (dp : InodePtr)
    (can : volume.CanReadDir (volume.inodes dp).copy limit) (inside : off + direntSize ≤ limit)
    (message : Panic) :
    ∃ bio, Returns (readDirent dp off message) volume
        ((volume.inodes dp).copy.direntAt volume.device.view off) (volume.setBio bio) [] ∧
      bio.device = volume.device := by
  have limitLe := can.inside
  have count : min direntSize ((volume.inodes dp).copy.size.toNat - off) = direntSize := by
    omega
  obtain ⟨bio, reads, device⟩ := readi_returns volume none dp off direntSize
    (by rw [can.type]; decide) (by omega) (by omega)
    (fun bn before after => can.present bn (by omega) (by omega))
    ⟨can.can.indirect, fun bn before after => can.can.blocks bn (by omega) (by omega)⟩
  rw [count] at reads
  refine ⟨bio, Returns.step reads ?_ rfl, device⟩
  exact .pure

/-- A directory entry in use under a name. -/
def Dirent.Names (entry : Dirent) (name : Name) : Prop :=
  entry.inum ≠ 0 ∧ namecmp name entry.name = true

/-- `dirlookup` passes over the entries of other names. -/
theorem dirlookupLoop_skip (volume : Volume) (dp : InodePtr) (name : Name)
    (can : volume.CanReadDir (volume.inodes dp).copy limit) (offs rest : List Nat)
    (inside : ∀ off ∈ offs, off + direntSize ≤ limit)
    (others : ∀ off ∈ offs,
      ¬ ((volume.inodes dp).copy.direntAt volume.device.view off).Names name) :
    ∃ bio : Bio, bio.device = volume.device ∧
      dirlookupLoop dp name (offs ++ rest) volume =
        dirlookupLoop dp name rest (volume.setBio bio) := by
  induction offs generalizing volume with
  | nil => exact ⟨volume.store.bio, rfl, rfl⟩
  | cons off offs ih =>
    obtain ⟨bio₁, reads, device₁⟩ := readDirent_returns volume dp can
      (inside off mem_cons_self) .dirlinkRead
    obtain ⟨bio₂, device₂, later⟩ := ih (volume.setBio bio₁) (can.congr device₁)
      (fun other isOther => inside other (mem_cons_of_mem _ isOther))
      (fun other isOther => by
        rw [device_setBio, device₁]
        exact others other (mem_cons_of_mem _ isOther))
    rw [device_setBio, device₁] at device₂
    refine ⟨bio₂, device₂, ?_⟩
    rw [cons_append, dirlookupLoop, reads.bind_eq]
    have other := others off mem_cons_self
    by_cases empty : ((volume.inodes dp).copy.direntAt volume.device.view off).inum = 0
    · rw [if_pos empty]
      exact later
    · rw [if_neg empty, if_neg fun named => other ⟨empty, named⟩]
      exact later

/-- `dirlookup` stops at the entry of the name. -/
theorem dirlookupLoop_found (volume : Volume) (dp : InodePtr) (name : Name)
    (can : volume.CanReadDir (volume.inodes dp).copy limit) (rest : List Nat)
    (inside : off + direntSize ≤ limit)
    (named : ((volume.inodes dp).copy.direntAt volume.device.view off).Names name) :
    ∃ bio : Bio, bio.device = volume.device ∧
      dirlookupLoop dp name (off :: rest) volume =
        (do
          let ip ← iget ((volume.inodes dp).copy.direntAt volume.device.view off).inum.toNat
          pure (some (ip, off)) : Code Volume (Option (InodePtr × Nat)))
          (volume.setBio bio) := by
  obtain ⟨bio, reads, device⟩ := readDirent_returns volume dp can inside .dirlinkRead
  refine ⟨bio, device, ?_⟩
  rw [dirlookupLoop, reads.bind_eq, if_neg named.1, if_pos named.2]

/-! ## The inode cache -/

theorem iget_returns (volume : Volume) {inum : Nat}
    (absent : ∀ ip, 0 < (volume.inodes ip).ref → (volume.inodes ip).inum ≠ inum)
    (free : ∃ ip, (volume.inodes ip).ref = 0) :
    ∃ ip, (volume.inodes ip).ref = 0 ∧
      Returns (iget inum) volume ip (volume.setInode ip { volume.inodes ip with
        inum, ref := 1, busy := false, valid := false }) [] := by
  have notCached : (List.finRange ninode).find? (fun ip =>
      decide (0 < (volume.inodes ip).ref) && decide ((volume.inodes ip).inum = inum)) = none := by
    rw [find?_eq_none]
    intro ip _ found
    rw [Bool.and_eq_true, decide_eq_true_eq, decide_eq_true_eq] at found
    exact absent ip found.1 found.2
  cases empty : (List.finRange ninode).find? (fun ip =>
      decide ((volume.inodes ip).ref = 0)) with
  | none =>
    obtain ⟨ip, unused⟩ := free
    rw [find?_eq_none] at empty
    exact absurd (decide_eq_true unused) (empty ip (mem_finRange ip))
  | some ip =>
    have unused := find?_some empty
    rw [decide_eq_true_eq] at unused
    refine ⟨ip, unused, Returns.step .get ?_ rfl⟩
    rw [notCached, empty]
    exact Returns.step .modify .pure rfl

theorem ilock_returns (volume : Volume) (ip : InodePtr) (used : 1 ≤ (volume.inodes ip).ref)
    (notBusy : (volume.inodes ip).busy = false) (notValid : (volume.inodes ip).valid = false)
    (can : volume.CanRead (iblock (volume.inodes ip).inum))
    (type : (Dinode.ofBlock (volume.device.view (iblock (volume.inodes ip).inum))).type ≠ 0) :
    ∃ bio, Returns (ilock ip) volume () ((volume.setBio bio).setInode ip { volume.inodes ip with
        busy := true, valid := true
        copy := .ofBlock (volume.device.view (iblock (volume.inodes ip).inum)) }) [] ∧
      bio.device = volume.device := by
  set locked := volume.setInode ip { volume.inodes ip with busy := true } with isLocked
  have canLocked : locked.CanRead (iblock (volume.inodes ip).inum) := ⟨can.free, can.room⟩
  obtain ⟨bio₁, reads, device₁⟩ := bread_returns_volume locked canLocked
  set loaded := (locked.setBio bio₁).setInode ip { (locked.setBio bio₁).inodes ip with
    copy := .ofBlock (volume.device.view (iblock (volume.inodes ip).inum)) } with isLoaded
  have isHeld : iblock (volume.inodes ip).inum ∈ loaded.device.held := by
    show _ ∈ bio₁.device.held
    rw [device₁]
    exact Finset.mem_insert_self _ _
  obtain ⟨bio₂, releases, device₂⟩ := brelse_returns_volume loaded isHeld
  refine ⟨bio₂, Returns.step (getInode_returns volume ip) ?_ rfl, ?_⟩
  · rw [if_neg (by omega), if_neg (by simp [notBusy])]
    refine Returns.step (modifyInode_returns ..) ?_ rfl
    rw [if_pos (by simp [notValid])]
    refine Returns.step reads ?_ rfl
    refine Returns.step (modifyInode_returns ..) ?_ rfl
    refine Returns.step releases ?_ rfl
    refine Returns.step (modifyInode_returns ..) ?_ rfl
    have view : locked.device.view (iblock (volume.inodes ip).inum) =
        volume.device.view (iblock (volume.inodes ip).inum) := rfl
    rw [view, if_neg type, isLoaded, isLocked]
    unfold setBio setInode
    simp only [update_idem, update_self]
    exact .pure
  · rw [device₂]
    show Device.release bio₁.device _ = _
    rw [device₁]
    exact Device.ext rfl rfl (Finset.erase_insert can.free) rfl

end XEditor.Fs
