import XEditor.Kernel.Links
import Mathlib.Data.List.Basic

/-!
# Replacing a file by a new one

What `sys_unlink` and then `create` do to the names of a file system when they
are given the path of an existing file: the old entry goes, and a new empty file
takes its place.
-/

namespace XEditor.Kernel

open List Option State

/-! ## Unlinking a file by its path -/

variable {state : State} {path : Path} {ip : Nat} {inode : Inode} {name : Name}

/-- A path that leads to a file has a parent directory and a last element. -/
theorem exists_parent_of_namei (wf : state.WellFormed) (named : namei state path = some (some ip))
    (read : state.inode? ip = some inode) (notDir : inode.type ≠ .dir) :
    ∃ dp name, nameiparent state path = some (some (dp, name)) ∧
      child state dp name = some ip := by
  have fileNotDir := not_isDir read notDir
  rw [namei_eq_some_iff] at named
  rcases eq_nil_or_concat' (elements path) with empty | ⟨above, last, elements_eq⟩
  · rw [empty, resolve_nil, some.injEq, startInum] at named
    split at named
    · exact absurd (named ▸ wf.rootDir) fileNotDir
    · exact absurd (named ▸ wf.cwdDir) fileNotDir
  · rw [elements_eq, resolve_concat, bind_eq_some_iff] at named
    obtain ⟨dp, walked, step⟩ := named
    refine ⟨dp, last, ?_, step⟩
    rw [nameiparent_eq_some_iff]
    exact ⟨above, elements_eq, walked, isDir_of_child step⟩

theorem exists_slotOf {entries : List Dirent} {inum : Nat}
    (found : dirlookup entries name = some inum) : ∃ slot, slotOf entries name = some slot := by
  cases slot_eq : slotOf entries name with
  | some slot => exact ⟨slot, rfl⟩
  | none =>
    obtain ⟨entry, entry_eq, -⟩ := map_eq_some_iff.mp found
    rw [slotOf, findIdx?_eq_none_iff] at slot_eq
    have unnamed := slot_eq entry (mem_of_find?_eq_some entry_eq)
    have named := find?_some entry_eq
    rw [unnamed] at named
    contradiction

section

variable (wf : state.WellFormed) (named : namei state path = some (some ip))
  (read : state.inode? ip = some inode) (notDir : inode.type ≠ .dir)
include wf named read notDir

/-- Unlinking the path of a file removes its entry. -/
theorem sysUnlink_file :
    ∃ dp name slot dir, nameiparent state path = some (some (dp, name)) ∧
      UnlinkAt state dp slot ip dir inode name ∧
      sysUnlink state path = some (unlinkEntry state dp slot ip dir inode, 0) := by
  obtain ⟨dp, name, parent_eq, step⟩ := exists_parent_of_namei wf named read notDir
  obtain ⟨dir, readDir, isDir, found⟩ := child_eq_some_iff.mp step
  obtain ⟨slot, slot_eq⟩ := exists_slotOf found
  have fileNotDir := not_isDir read notDir
  have notDots : ¬ (name = dotName ∨ name = dotDotName) :=
    fun dots => fileNotDir (wf.dotsDir dots step)
  have distinct : ip ≠ dp := by
    rintro rfl
    exact fileNotDir ⟨dir, readDir, isDir⟩
  have links := one_le_nlink wf step read notDir
  refine ⟨dp, name, slot, dir, parent_eq, ?_, ?_⟩
  · exact ⟨readDir, isDir, notDots, slot_eq, found, distinct, read, links,
      fun inodeDir => absurd inodeDir notDir⟩
  rw [sysUnlink, parent_eq]
  simp only [bind_eq_bind, bind_some, unlinkIn, readDir, if_neg notDots, slot_eq,
    found, if_neg distinct, read, if_neg (Int.not_lt.mpr links)]
  rw [if_neg (fun both => notDir both.1)]

/-- After the path of a file is unlinked, its parent directory is still found,
without the name. -/
theorem sysUnlink_frees_name :
    ∃ result dp name dir, sysUnlink state path = some (result, 0) ∧
      result = { state with inodes := result.inodes } ∧
      nameiparent result path = some (some (dp, name)) ∧ result.inode? dp = some dir ∧
      dir.type = .dir ∧ dirlookup dir.entries name = none ∧
      (dir.nlink = 0 → state.held dp = true) := by
  obtain ⟨dp, name, slot, dir, parent_eq, unlink, called⟩ := sysUnlink_file wf named read notDir
  have unique := wf.uniqueNames unlink.readDir unlink.isDir
  have sameProcess := unlinkEntry_eq_with_inodes state dp slot ip dir inode
  obtain ⟨above, elements_eq, walked, parentDir⟩ := nameiparent_eq_some_iff.mp parent_eq
  have readParent := unlink.inode?_parent wf.orphans notDir
  refine ⟨_, dp, name, _, called, sameProcess, ?_, readParent, unlink.isDir, ?_, ?_⟩
  · rw [nameiparent_eq_some_iff]
    refine ⟨above, elements_eq, ?_, _, readParent, unlink.isDir⟩
    have start : startInum (unlinkEntry state dp slot ip dir inode) path =
        startInum state path := by
      rw [sameProcess]
      rfl
    rw [start]
    exact unlink.resolve_unlinkEntry wf.orphans unique notDir walked parentDir
  · rw [dirlookup_remove unique unlink.slot_eq, if_pos rfl]
  · exact wf.orphans dp dir unlink.readDir

end

/-! ## Creating a file under a fresh name -/

/-- A new regular file. -/
def newFile : Inode where
  type := .file
  nlink := 1
  entries := []
  content := []

section

variable {dp : Nat} {dir : Inode}

theorem ialloc_spec (allocated : ialloc state = some ip) :
    ip ≠ 0 ∧ ip < state.inodes.length ∧ state.inode? ip = none := by
  have free := find?_some allocated
  have mem := mem_of_find?_eq_some allocated
  rw [Bool.and_eq_true, bne_iff_ne, isNone_iff_eq_none] at free
  exact ⟨free.1, mem_range.mp mem, free.2⟩

/-- `create` under a fresh name allocates an inode and enters it. -/
theorem create_fresh {result : State} {found : Option Nat}
    (parent_eq : nameiparent state path = some (some (dp, name)))
    (readDir : state.inode? dp = some dir) (isDir : dir.type = .dir)
    (fresh : dirlookup dir.entries name = none)
    (called : create state path = some (result, found)) :
    ∃ ip, found = some ip ∧ Enters state ip dp newFile dir name ∧
      result = (entered state ip dp newFile dir name).iput dp := by
  rw [create, parent_eq] at called
  simp only [bind_eq_bind, bind_some, readDir, fresh] at called
  obtain ⟨ip, allocated, linkedEntry⟩ := bind_eq_some_iff.mp called
  obtain ⟨added, added_eq, result_eq⟩ := bind_eq_some_iff.mp linkedEntry
  obtain ⟨nonzero, bound, free⟩ := ialloc_spec allocated
  cases added with
  | none => contradiction
  | some entries =>
    obtain ⟨-, rfl⟩ := dirlink_eq_some_some added_eq
    rw [some.injEq, Prod.mk.injEq] at result_eq
    refine ⟨ip, result_eq.2.symm, ?_, result_eq.1.symm⟩
    refine ⟨bound, ?_, FileType.noConfusion, nonzero, readDir, isDir, fresh⟩
    rintro ⟨inode, read, -⟩
    rw [free] at read
    contradiction

/-- Entering a new file drops the last reference to no directory. -/
theorem Enters.iput_parent (enters : Enters state ip dp newFile dir name)
    (inUse : dir.nlink = 0 → state.referenced dp = true) :
    (entered state ip dp newFile dir name).iput dp = entered state ip dp newFile dir name := by
  apply iput_eq_self_of
  intro inode read noLinks
  rw [enters.inode?_parent] at read
  cases read
  exact inUse noLinks

theorem Enters.iput_file (enters : Enters state ip dp newFile dir name) :
    (entered state ip dp newFile dir name).iput ip = entered state ip dp newFile dir name := by
  apply iput_eq_self_of
  intro inode read noLinks
  rw [enters.inode?_file] at read
  cases read
  contradiction

end

/-! ## Creating a file where an unlink was tried -/

/-- The second state has no name and no inode that the first one has not. -/
structure FewerNames (before after : State) : Prop where
  inode : ∀ {inum new}, after.inode? inum = some new →
    ∃ old, before.inode? inum = some old ∧ new.type = old.type
  step : ∀ {inum name target}, child after inum name = some target →
    child before inum name = some target

namespace FewerNames

variable {before middle after : State}

theorem refl (state : State) : FewerNames state state :=
  ⟨fun read => ⟨_, read, rfl⟩, id⟩

theorem trans (first : FewerNames before middle) (second : FewerNames middle after) :
    FewerNames before after where
  inode read := by
    obtain ⟨new, readMiddle, type_eq⟩ := second.inode read
    obtain ⟨old, readBefore, type_eq'⟩ := first.inode readMiddle
    exact ⟨old, readBefore, type_eq.trans type_eq'⟩
  step found := first.step (second.step found)

/-- Storing an inode with fewer entries. -/
theorem setInode {inum : Nat} {old new : Inode} (read : state.inode? inum = some old)
    (type_eq : new.type = old.type)
    (fewer : ∀ {name target}, dirlookup new.entries name = some target →
      dirlookup old.entries name = some target) : FewerNames state (state.setInode inum new) where
  inode := by
    intro other found readOther
    by_cases same : inum = other
    · subst same
      rw [inode?_setInode_self read, some.injEq] at readOther
      exact ⟨old, read, readOther ▸ type_eq⟩
    · rw [inode?_setInode_ne same] at readOther
      exact ⟨found, readOther, rfl⟩
  step := by
    intro other name target found
    by_cases same : inum = other
    · subst same
      obtain ⟨stored, readStored, isDir, lookup⟩ := child_eq_some_iff.mp found
      rw [inode?_setInode_self read] at readStored
      cases readStored
      exact child_eq_some_iff.mpr ⟨old, read, type_eq ▸ isDir, fewer lookup⟩
    · rw [child, inode?_setInode_ne same] at found
      exact found

/-- Freeing an inode. -/
theorem iput (state : State) (inum : Nat) : FewerNames state (state.iput inum) := by
  have kept {other : Nat} {inode : Inode} (read : (state.iput inum).inode? other = some inode) :
      state.inode? other = some inode := by
    by_cases same : inum = other
    · subst same
      rcases inode?_iput_self state inum with freed | unchanged
      · rw [freed] at read
        contradiction
      · exact unchanged ▸ read
    · exact inode?_iput_ne state same ▸ read
  refine ⟨fun read => ⟨_, kept read, rfl⟩, ?_⟩
  intro other name target found
  obtain ⟨inode, read, isDir, lookup⟩ := child_eq_some_iff.mp found
  exact child_eq_some_iff.mpr ⟨inode, kept read, isDir, lookup⟩

/-- The parent directory of a path is the same, if it is still found. -/
theorem nameiparent (fewer : FewerNames before after) (cwd_eq : after.cwd = before.cwd) {dp : Nat}
    (parent_eq : nameiparent after path = some (some (dp, name))) :
    Kernel.nameiparent before path = some (some (dp, name)) := by
  obtain ⟨above, elements_eq, walked, dir, read, isDir⟩ := nameiparent_eq_some_iff.mp parent_eq
  obtain ⟨old, readOld, type_eq⟩ := fewer.inode read
  have walkedBefore := resolve_of_steps (fun found _ => fewer.step found) walked
  rw [startInum, cwd_eq] at walkedBefore
  exact nameiparent_eq_some_iff.mpr
    ⟨above, elements_eq, walkedBefore, old, readOld, type_eq ▸ isDir⟩

end FewerNames

theorem UnlinkAt.fewerNames {dp slot ip : Nat} {dir inode : Inode}
    (unlink : UnlinkAt state dp slot ip dir inode name) (unique : UniqueNames dir.entries) :
    FewerNames state (unlinkEntry state dp slot ip dir inode) := by
  have fewer {other : Name} {target : Nat}
      (found : dirlookup (dir.entries.set slot freeEntry) other = some target) :
      dirlookup dir.entries other = some target := by
    rw [dirlookup_remove unique unlink.slot_eq] at found
    exact (ite_none_left_eq_some.mp found).2
  have removed (dir' : Inode) (type_eq : dir'.type = dir.type)
      (entries_eq : dir'.entries = dir.entries.set slot freeEntry) :
      FewerNames state ((((state.setInode dp dir').iput dp).setInode ip
        { inode with nlink := toShort (inode.nlink - 1) }).iput ip) := by
    have read : ((state.setInode dp dir').iput dp).inode? ip = some inode := by
      rw [inode?_iput_ne _ unlink.distinct.symm, inode?_setInode_ne unlink.distinct.symm]
      exact unlink.read
    have entry : FewerNames state (state.setInode dp dir') :=
      .setInode unlink.readDir type_eq (entries_eq ▸ fewer)
    have count : FewerNames ((state.setInode dp dir').iput dp)
        (((state.setInode dp dir').iput dp).setInode ip
          { inode with nlink := toShort (inode.nlink - 1) }) :=
      .setInode read rfl id
    exact ((entry.trans (.iput _ dp)).trans count).trans (.iput _ ip)
  rw [unlinkEntry]
  by_cases isDir : inode.type = .dir
  · simp only [if_pos isDir]
    exact removed _ rfl rfl
  · simp only [if_neg isDir]
    exact removed _ rfl rfl

/-- The parent directory of a removed entry stays in use. -/
theorem UnlinkAt.parent_referenced {dp slot ip : Nat} {dir inode left : Inode}
    (unlink : UnlinkAt state dp slot ip dir inode name)
    (read : (unlinkEntry state dp slot ip dir inode).inode? dp = some left)
    (noLinks : left.nlink = 0) :
    (unlinkEntry state dp slot ip dir inode).referenced dp = true := by
  have sameProcess := unlinkEntry_eq_with_inodes state dp slot ip dir inode
  rw [unlinkEntry, inode?_iput_ne _ unlink.distinct, inode?_setInode_ne unlink.distinct] at read
  have used := referenced_of_iput read noLinks
  rw [sameProcess]
  exact used

/-- What is left after a call of `sys_unlink`, whether it fails or not. -/
theorem sysUnlink_leaves {state removed : State} (wf : state.WellFormed) {code : Int}
    (called : sysUnlink state path = some (removed, code)) :
    FewerNames state removed ∧ removed = { state with inodes := removed.inodes } ∧
      ∀ dp name dir, nameiparent state path = some (some (dp, name)) →
        removed.inode? dp = some dir → dir.nlink = 0 → removed.referenced dp = true := by
  have unchanged (dp : Nat) (dir : Inode) (read : state.inode? dp = some dir)
      (noLinks : dir.nlink = 0) : state.referenced dp = true := by
    rw [referenced, wf.orphans dp dir read noLinks, Bool.or_true]
  obtain ⟨parent, parent_eq, called⟩ := bind_eq_some_iff.mp called
  cases parent with
  | none =>
    cases called
    exact ⟨.refl state, rfl, fun dp _ dir _ => unchanged dp dir⟩
  | some parent =>
    obtain ⟨dp, name⟩ := parent
    obtain ⟨-, -, -, dir, readDir, isDir⟩ := nameiparent_eq_some_iff.mp parent_eq
    rcases unlinkIn_cases wf.orphans.kept readDir isDir called with
      ⟨rfl, -⟩ | ⟨slot, ip, inode, unlink, rfl, -⟩
    · exact ⟨.refl _, rfl, fun dp _ dir _ => unchanged dp dir⟩
    refine ⟨unlink.fewerNames (wf.uniqueNames readDir isDir),
      unlinkEntry_eq_with_inodes state dp slot ip dir inode, ?_⟩
    intro other otherName left same read noLinks
    rw [parent_eq] at same
    obtain ⟨rfl, -⟩ := same
    exact unlink.parent_referenced read noLinks

/-- Whatever became of the unlink, a file that `create` then returns is new. -/
theorem create_after_unlink {state removed made : State} (wf : state.WellFormed) {code : Int}
    (unlinked : sysUnlink state path = some (removed, code))
    (created : create removed path = some (made, some ip)) :
    ∃ dp dir name, Enters removed ip dp newFile dir name ∧
      nameiparent removed path = some (some (dp, name)) ∧
      made = entered removed ip dp newFile dir name := by
  obtain ⟨fewer, sameProcess, inUse⟩ := sysUnlink_leaves wf unlinked
  have createCall := created
  obtain ⟨parent, parent_eq, created⟩ := bind_eq_some_iff.mp created
  cases parent with
  | none => exact absurd created (by simp)
  | some parent =>
    obtain ⟨dp, name⟩ := parent
    obtain ⟨-, -, -, dir, readDir, isDir⟩ := nameiparent_eq_some_iff.mp parent_eq
    have parentBefore : nameiparent state path = some (some (dp, name)) := by
      refine fewer.nameiparent ?_ parent_eq
      rw [sameProcess]
    simp only [readDir, bind_eq_bind, bind_some] at created
    cases found : dirlookup dir.entries name with
    | none =>
      obtain ⟨new, new_eq, enters, made_eq⟩ := create_fresh parent_eq readDir isDir found createCall
      obtain rfl := some.inj new_eq
      rw [enters.iput_parent (inUse dp name dir parentBefore readDir)] at made_eq
      exact ⟨dp, dir, name, enters, parent_eq, made_eq⟩
    | some old =>
      -- A regular file would have been unlinked.
      simp only [found] at created
      obtain ⟨inode, read, created⟩ := bind_eq_some_iff.mp created
      by_cases isFile : inode.type = .file
      · obtain ⟨inodeBefore, readBefore, type_eq⟩ := fewer.inode read
        have notDir : inodeBefore.type ≠ .dir := by
          rw [← type_eq, isFile]
          exact FileType.noConfusion
        have step := fewer.step ((child_of_inode readDir isDir name).trans found)
        obtain ⟨above, elements_eq, walked, -⟩ := nameiparent_eq_some_iff.mp parentBefore
        have named : namei state path = some (some old) := by
          rw [namei_eq_some_iff, elements_eq, resolve_concat, walked]
          exact step
        obtain ⟨result, dp', name', dir', unlinkCall, -, parent_eq', readDir', -, free, -⟩ :=
          sysUnlink_frees_name wf named readBefore notDir
        obtain ⟨rfl, -⟩ := Prod.mk.inj (some.inj (unlinked.symm.trans unlinkCall))
        have places := parent_eq.symm.trans parent_eq'
        obtain ⟨rfl, rfl⟩ := places
        obtain rfl := some.inj (readDir.symm.trans readDir')
        exact absurd (found.symm.trans free) (by simp)
      · rw [if_neg isFile] at created
        exact absurd created (by simp)

end XEditor.Kernel
