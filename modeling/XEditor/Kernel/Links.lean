import Mathlib.Data.List.Nodup
import Mathlib.Data.List.Perm.Subperm
import XEditor.Kernel.Syscall

/-!
# What linking and unlinking do to the names of a file system

A well-formed file system has unique names in each directory, link counts that
cover the names of each file, and no inode that only waits to be freed.  On such
a state `sys_link` and `sys_unlink` are described by what they do to the walk
along directory entries.
-/

namespace XEditor.Kernel

open List Option

/-! ## References -/

variable {state first second : State} {inum ip target : Nat} {inode : Inode} {name : Name}
  {names : List Name} {code : Int}

namespace State

/-- Every inode without links is held by a process. -/
def OrphansHeld (state : State) : Prop :=
  ∀ inum inode, state.inode? inum = some inode → inode.nlink = 0 → state.held inum = true

/-- Every inode without links is in use, if only as the working directory. -/
def OrphansKept (state : State) : Prop :=
  ∀ inum inode, state.inode? inum = some inode → inode.nlink = 0 →
    state.referenced inum = true

/-- Every link count is a number of links. -/
def ShortLinks (state : State) : Prop :=
  ∀ {inum inode}, state.inode? inum = some inode → 0 ≤ inode.nlink ∧ inode.nlink < 32768

theorem OrphansHeld.kept (orphans : state.OrphansHeld) : state.OrphansKept := by
  intro inum inode read noLinks
  rw [referenced, orphans inum inode read noLinks, Bool.or_true]

theorem iput_eq_self_of
    (kept : ∀ inode, state.inode? inum = some inode → inode.nlink = 0 → state.referenced inum =
      true) : state.iput inum = state := by
  unfold iput
  split
  · rfl
  rename_i inode read
  rw [if_neg]
  rintro ⟨noLinks, unused⟩
  rw [kept inode read noLinks] at unused
  contradiction

/-- Dropping a reference frees nothing while every orphan is in use. -/
theorem OrphansKept.iput (kept : state.OrphansKept) (inum : Nat) : state.iput inum = state :=
  iput_eq_self_of (kept inum)

theorem OrphansHeld.iput (orphans : state.OrphansHeld) (inum : Nat) : state.iput inum = state :=
  orphans.kept.iput inum

theorem inode?_iput_ne (state : State) {inum other : Nat} (distinct : inum ≠ other) :
    (state.iput inum).inode? other = state.inode? other := by
  unfold iput
  split
  · rfl
  · split
    · rw [inode?, getElem?_set_ne distinct, inode?]
    · rfl

/-- An inode whose reference is dropped is gone or as it was. -/
theorem inode?_iput_self (state : State) (inum : Nat) :
    (state.iput inum).inode? inum = none ∨
      (state.iput inum).inode? inum = state.inode? inum := by
  unfold iput
  split
  · exact .inr rfl
  rename_i inode read
  split
  · left
    rw [inode?, getElem?_set_self (inode?_lt read)]
    rfl
  · exact .inr rfl

/-- Dropping a reference changes the inode table only. -/
theorem iput_eq_with_inodes (state : State) (inum : Nat) :
    state.iput inum = { state with inodes := (state.iput inum).inodes } := by
  unfold iput
  split
  · rfl
  · split <;> rfl

theorem held_iput (state : State) (inum other : Nat) :
    (state.iput inum).held other = state.held other := by
  rw [iput_eq_with_inodes]
  rfl

/-- An inode without links survives a dropped reference only if there is
another one. -/
theorem referenced_of_iput (read : (state.iput inum).inode? inum = some inode)
    (noLinks : inode.nlink = 0) :
    state.referenced inum = true := by
  unfold iput at read
  split at read
  · rename_i missing
    rw [missing] at read
    contradiction
  · rename_i old readOld
    split at read
    · rw [inode?, getElem?_set_self (inode?_lt readOld)] at read
      contradiction
    rename_i kept
    rw [readOld] at read
    cases read
    by_contra unused
    exact kept ⟨noLinks, Bool.eq_false_iff.mpr unused⟩

/-- Storing an inode that has links adds no inode without links. -/
theorem forall_unlinked_setInode {p : Nat → Prop} {old new : Inode}
    (unlinked : ∀ inum inode, state.inode? inum = some inode → inode.nlink = 0 → p inum)
    (read : state.inode? inum = some old) (linked : new.nlink = 0 → old.nlink = 0) (other : Nat)
    (inode : Inode) (readOther : (state.setInode inum new).inode? other = some inode)
    (noLinks : inode.nlink = 0) : p other := by
  by_cases same : inum = other
  · subst same
    rw [inode?_setInode_self read] at readOther
    cases readOther
    exact unlinked inum old read (linked noLinks)
  · rw [inode?_setInode_ne same] at readOther
    exact unlinked other inode readOther noLinks

theorem OrphansHeld.setInode (orphans : state.OrphansHeld) {old new : Inode}
    (read : state.inode? inum = some old) (linked : new.nlink = 0 → old.nlink = 0) :
    (state.setInode inum new).OrphansHeld :=
  forall_unlinked_setInode orphans read linked

theorem OrphansKept.setInode (kept : state.OrphansKept) {old new : Inode}
    (read : state.inode? inum = some old) (linked : new.nlink = 0 → old.nlink = 0) :
    (state.setInode inum new).OrphansKept :=
  forall_unlinked_setInode kept read linked

/-- A file system between system calls. -/
structure WellFormed (state : State) : Prop where
  uniqueNames : ∀ {inum inode}, state.inode? inum = some inode → inode.type = .dir →
    UniqueNames inode.entries
  links_le : ∀ {inum inode}, state.inode? inum = some inode → inode.type ≠ .dir →
    ∀ places : List (Nat × Name), places.Nodup →
      (∀ place ∈ places, child state place.1 place.2 = some inum) →
        (places.length : Int) ≤ inode.nlink
  nlink_nonneg : ∀ {inum inode}, state.inode? inum = some inode → 0 ≤ inode.nlink
  nlink_lt : ∀ {inum inode}, state.inode? inum = some inode → inode.nlink < 32768
  emptyDir : ∀ {inum inode}, state.inode? inum = some inode → inode.type = .dir →
    isdirempty inode.entries = true → inode.nlink ≤ 1
  subdirLinks : ∀ {inum inode name target}, state.inode? inum = some inode →
    ¬ (name = dotName ∨ name = dotDotName) → child state inum name = some target →
      IsDir state target → 2 ≤ inode.nlink
  dotsDir : ∀ {inum name target}, name = dotName ∨ name = dotDotName →
    child state inum name = some target → IsDir state target
  rootDir : IsDir state rootino
  cwdDir : IsDir state state.cwd
  orphans : state.OrphansHeld

theorem WellFormed.short (wf : state.WellFormed) : state.ShortLinks :=
  fun read => ⟨wf.nlink_nonneg read, wf.nlink_lt read⟩

/-- Any directory can be the working directory. -/
theorem WellFormed.withCwd (wf : state.WellFormed) {dir : Nat} (isDir : IsDir state dir) :
    { state with cwd := dir }.WellFormed where
  uniqueNames := wf.uniqueNames
  links_le := wf.links_le
  nlink_nonneg := wf.nlink_nonneg
  nlink_lt := wf.nlink_lt
  emptyDir := wf.emptyDir
  subdirLinks := wf.subdirLinks
  dotsDir := wf.dotsDir
  rootDir := wf.rootDir
  cwdDir := isDir
  orphans := wf.orphans

end State

open State

/-- A name of a well-formed file system is counted. -/
theorem one_le_nlink (wf : state.WellFormed) {dir ip : Nat} (step : child state dir name = some ip)
    (read : state.inode? ip = some inode) (notDir : inode.type ≠ .dir) : 1 ≤ inode.nlink := by
  have counted := wf.links_le read notDir [(dir, name)] (by simp)
  simp only [mem_singleton, forall_eq, length_singleton] at counted
  exact counted step

/-- Two names of a well-formed file system are both counted. -/
theorem two_le_nlink (wf : state.WellFormed) {first second : Nat × Name} (distinct : first ≠ second)
    (firstStep : child state first.1 first.2 = some ip)
    (secondStep : child state second.1 second.2 = some ip) (read : state.inode? ip = some inode)
    (notDir : inode.type ≠ .dir) : 2 ≤ inode.nlink := by
  have nodup : [first, second].Nodup := by
    simp [distinct]
  refine wf.links_le read notDir [first, second] nodup ?_
  intro place mem
  rw [mem_cons, mem_singleton] at mem
  rcases mem with rfl | rfl
  · exact firstStep
  · exact secondStep

/-! ## States with the same names -/

/-- Two states agree on types and directory entries. -/
def SameNames (first second : State) : Prop :=
  ∀ inum, (first.inode? inum).map (fun inode => (inode.type, inode.entries)) =
    (second.inode? inum).map fun inode => (inode.type, inode.entries)

/-- Storing an inode with its old type and entries keeps all names. -/
theorem SameNames.setInode {old new : Inode} (read : state.inode? inum = some old)
    (type_eq : new.type = old.type) (entries_eq : new.entries = old.entries) :
    SameNames (state.setInode inum new) state := by
  intro other
  by_cases same : inum = other
  · subst same
    rw [inode?_setInode_self read, read, map_some, map_some, type_eq, entries_eq]
  · rw [inode?_setInode_ne same]

theorem SameNames.namexLoop (same : SameNames first second) (nameiparent : Bool) (fuel inum : Nat)
    (path : Path) (name : Name) :
    namexLoop first nameiparent fuel inum path name =
      namexLoop second nameiparent fuel inum path name := by
  induction fuel generalizing inum path name with
  | zero => rfl
  | succ fuel ih =>
    rw [Kernel.namexLoop, Kernel.namexLoop]
    cases skipelem path with
    | none => rfl
    | some next =>
      have agree := same inum
      cases readFirst : first.inode? inum with
      | none =>
        rw [readFirst, map_none, eq_comm, map_eq_none_iff] at agree
        simp only [agree, bind_eq_bind, bind_none]
      | some inode =>
        rw [readFirst, map_some, eq_comm, map_eq_some_iff] at agree
        obtain ⟨inode', readSecond, data_eq⟩ := agree
        rw [Prod.mk.injEq] at data_eq
        simp only [readSecond, bind_eq_bind, bind_some, data_eq.1, data_eq.2, ih]

section

variable (same : SameNames first second) (cwd_eq : first.cwd = second.cwd) (path : Path)
include same cwd_eq

theorem SameNames.nameiparent : nameiparent first path = nameiparent second path := by
  rw [Kernel.nameiparent, namex, same.namexLoop, startInum, cwd_eq]
  rfl

theorem SameNames.namei : namei first path = namei second path := by
  rw [Kernel.namei, namex, same.namexLoop, startInum, cwd_eq]
  rfl

end

/-- Descriptors do not matter for names. -/
theorem namei_withFiles (state : State) (ofile : List (Option OpenFile)) (ftableFree : Nat)
    (path : Path) :
    namei { state with ofile := ofile, ftableFree := ftableFree } path = namei state path := by
  have same : SameNames { state with ofile := ofile, ftableFree := ftableFree } state :=
    fun _ => rfl
  exact same.namei rfl path

/-! ## A new entry in a directory -/

/-- A walk is possible in every state that has its steps. -/
theorem resolve_of_steps
    (steps : ∀ {inum name next names}, child first inum name = some next →
      resolve first next names = some target → child second inum name = some next)
    (walked : resolve first inum names = some target) :
    resolve second inum names = some target := by
  induction names generalizing inum with
  | nil => exact walked
  | cons name names ih =>
    rw [resolve_cons] at walked ⊢
    obtain ⟨next, step, rest⟩ := bind_eq_some_iff.mp walked
    rw [steps step rest]
    exact ih rest

theorem not_isDir (read : state.inode? inum = some inode) (notDir : inode.type ≠ .dir) :
    ¬ IsDir state inum := by
  rintro ⟨other, readOther, isDir⟩
  rw [read, some.injEq] at readOther
  exact notDir (readOther ▸ isDir)

/-- The state after a file is stored and entered in a directory. -/
def entered (state : State) (ip dp : Nat) (file dir : Inode) (name : Name) : State :=
  (state.setInode ip file).setInode dp
    { dir with entries := writeEntry dir.entries (freeSlot dir.entries) ⟨ip, name⟩ }

/-- A file, new or changed, can be entered in a directory under a fresh name. -/
structure Enters (state : State) (ip dp : Nat) (file dir : Inode) (name : Name) : Prop where
  bound : ip < state.inodes.length
  notDirBefore : ¬ IsDir state ip
  notDir : file.type ≠ .dir
  nonzero : ip ≠ 0
  readDir : state.inode? dp = some dir
  isDir : dir.type = .dir
  fresh : dirlookup dir.entries name = none

namespace Enters

variable {dp : Nat} {file dir : Inode} (enters : Enters state ip dp file dir name)

include enters

theorem distinct : ip ≠ dp := by
  rintro rfl
  exact enters.notDirBefore ⟨dir, enters.readDir, enters.isDir⟩

theorem inode?_file : (entered state ip dp file dir name).inode? ip = some file := by
  rw [entered, inode?_setInode_ne enters.distinct.symm, inode?_setInode_of_lt enters.bound]

theorem inode?_parent :
    (entered state ip dp file dir name).inode? dp =
      some { dir with entries := writeEntry dir.entries (freeSlot dir.entries) ⟨ip, name⟩ } := by
  rw [entered, inode?_setInode_self]
  rw [inode?_setInode_ne enters.distinct]
  exact enters.readDir

/-- The new entry adds one step to the walk. -/
theorem child_entered (other : Nat) (otherName : Name) :
    child (entered state ip dp file dir name) other otherName =
      if other = dp ∧ otherName = name then some ip else child state other otherName := by
  by_cases atParent : dp = other
  · subst atParent
    rw [child_of_inode enters.inode?_parent enters.isDir,
      child_of_inode enters.readDir enters.isDir,
      dirlookup_writeEntry enters.fresh enters.nonzero]
    simp only [true_and]
  · rw [if_neg (fun both => atParent both.1.symm)]
    by_cases atFile : ip = other
    · subst atFile
      have before : child state ip otherName = none :=
        eq_none_iff_forall_ne_some.mpr fun target step =>
          enters.notDirBefore (isDir_of_child step)
      rw [child, enters.inode?_file, bind_some, if_neg enters.notDir, before]
    · rw [child, entered, inode?_setInode_ne atParent, inode?_setInode_ne atFile, child]

/-- Every walk stays possible. -/
theorem resolve_entered (walked : resolve state inum names = some target) :
    resolve (entered state ip dp file dir name) inum names = some target := by
  refine resolve_of_steps ?_ walked
  intro inum other next names found _
  rw [enters.child_entered]
  split
  · rename_i atNew
    rw [atNew.1, atNew.2, child_of_inode enters.readDir enters.isDir, enters.fresh] at found
    contradiction
  · exact found

/-- The new name leads to the file. -/
theorem namei_entered {path : Path} (parent_eq : nameiparent state path = some (some (dp, name))) :
    namei (entered state ip dp file dir name) path = some (some ip) := by
  obtain ⟨above, elements_eq, walked, -⟩ := nameiparent_eq_some_iff.mp parent_eq
  rw [namei_eq_some_iff, elements_eq, resolve_concat, bind_eq_some_iff]
  refine ⟨dp, enters.resolve_entered walked, ?_⟩
  rw [enters.child_entered, if_pos ⟨rfl, rfl⟩]

/-- Names stay unique. -/
theorem uniqueNames (wf : state.WellFormed) {other : Nat}
    (read : (entered state ip dp file dir name).inode? other = some inode)
    (isDir : inode.type = .dir) : UniqueNames inode.entries := by
  by_cases atParent : dp = other
  · subst atParent
    rw [enters.inode?_parent] at read
    cases read
    exact (wf.uniqueNames enters.readDir enters.isDir).writeEntry ip enters.fresh
  · by_cases atFile : ip = other
    · subst atFile
      rw [enters.inode?_file, some.injEq] at read
      exact absurd (read ▸ isDir) enters.notDir
    · rw [entered, inode?_setInode_ne atParent, inode?_setInode_ne atFile] at read
      exact wf.uniqueNames read isDir

end Enters

/-! ## `sys_link` -/

/-- The old path names a file and the new one a fresh entry of a directory. -/
structure LinkAt (state : State) (old new : Path) (ip dp : Nat) (inode dir : Inode)
    (name : Name) : Prop where
  old_eq : namei state old = some (some ip)
  read : state.inode? ip = some inode
  notDir : inode.type ≠ .dir
  new_eq : nameiparent state new = some (some (dp, name))
  readDir : state.inode? dp = some dir
  isDir : dir.type = .dir
  fresh : dirlookup dir.entries name = none

/-- The state after a successful `sys_link`. -/
abbrev linked (state : State) (ip dp : Nat) (inode dir : Inode) (name : Name) : State :=
  entered state ip dp { inode with nlink := toShort (inode.nlink + 1) } dir name

theorem toShort_succ_ne_zero {n : Int} (nonneg : 0 ≤ n) (short : n < 32768) :
    toShort (n + 1) ≠ 0 := by
  by_cases last : n = 32767
  · rw [last]
    decide
  · rw [toShort_of_mem (by omega) (by omega)]
    omega

/-- Taking the extra link back restores the state. -/
theorem linkBad_eq (kept : state.OrphansKept) (short : state.ShortLinks)
    (read : state.inode? ip = some inode) :
    linkBad (state.setInode ip { inode with nlink := toShort (inode.nlink + 1) }) ip =
      some (state, -1) := by
  have restored : toShort (toShort (inode.nlink + 1) - 1) = inode.nlink := by
    have := (short read).1
    exact toShort_succ_pred (by omega) (short read).2
  rw [linkBad, inode?_setInode_self read]
  simp only [bind_eq_bind, bind_some, setInode_setInode, restored]
  rw [setInode_self read, kept.iput]

theorem dirlink_eq_some_none_iff {entries : List Dirent} :
    dirlink entries name inum = some none ↔ dirlookup entries name ≠ none := by
  rw [dirlink, ← isSome_iff_ne_none]
  split
  · simp [*]
  · split <;> simp [*]

theorem dirlink_eq_some_some {entries written : List Dirent}
    (added : dirlink entries name inum = some (some written)) :
    dirlookup entries name = none ∧
      written = writeEntry entries (freeSlot entries) ⟨inum, name⟩ := by
  unfold dirlink at added
  split at added
  · simp at added
  rename_i absent
  split at added
  · rw [some.injEq, some.injEq] at added
    exact ⟨not_isSome_iff_eq_none.mp absent, added.symm⟩
  · contradiction

/-- The second half of `sys_link`, for a file that has got the extra link: the
link is taken back unless the new path names a fresh entry of a directory. -/
theorem linkEntry_cases {state result : State} (kept : state.OrphansKept) (short : state.ShortLinks)
    (read : state.inode? ip = some inode) (notDir : inode.type ≠ .dir) {new : Path}
    (called : linkEntry (state.setInode ip { inode with nlink := toShort (inode.nlink + 1) }) ip
      new = some (result, code)) :
    (result = state ∧ ∀ dp dir name, nameiparent state new = some (some (dp, name)) →
      state.inode? dp = some dir → dirlookup dir.entries name ≠ none) ∨
      ∃ dp dir name, nameiparent state new = some (some (dp, name)) ∧
        state.inode? dp = some dir ∧ dir.type = .dir ∧ dirlookup dir.entries name = none ∧
          result = linked state ip dp inode dir name ∧ code = 0 := by
  have sameNames : SameNames
      (state.setInode ip { inode with nlink := toShort (inode.nlink + 1) }) state := by
    apply SameNames.setInode read <;> rfl
  rw [linkEntry, sameNames.nameiparent rfl] at called
  obtain ⟨parent, new_eq, called⟩ := bind_eq_some_iff.mp called
  cases parent with
  | none =>
    rw [linkBad_eq kept short read] at called
    cases called
    refine .inl ⟨rfl, ?_⟩
    intro dp dir name found
    exact absurd (new_eq.symm.trans found) (by simp)
  | some parent =>
    obtain ⟨dp, name⟩ := parent
    obtain ⟨dir, readDir, called⟩ := bind_eq_some_iff.mp called
    obtain ⟨-, -, -, isDir⟩ := nameiparent_eq_some_iff.mp new_eq
    have distinct : ip ≠ dp := by
      rintro rfl
      exact not_isDir read notDir isDir
    have readDirCounted := readDir
    rw [inode?_setInode_ne distinct] at readDir
    obtain ⟨parentInode, readParent, parentIsDir⟩ := isDir
    obtain rfl : parentInode = dir := some.inj (readParent.symm.trans readDir)
    obtain ⟨added, added_eq, called⟩ := bind_eq_some_iff.mp called
    have counted : (state.setInode ip
        { inode with nlink := toShort (inode.nlink + 1) }).OrphansKept :=
      kept.setInode read fun noLinks => absurd noLinks
        (toShort_succ_ne_zero (short read).1 (short read).2)
    cases added with
    | none =>
      rw [counted.iput, linkBad_eq kept short read] at called
      cases called
      refine .inl ⟨rfl, ?_⟩
      intro dp' dir' name' found readThere
      have places := new_eq.symm.trans found
      obtain ⟨rfl, rfl⟩ := places
      obtain rfl : parentInode = dir' := some.inj (readDir.symm.trans readThere)
      exact dirlink_eq_some_none_iff.mp added_eq
    | some entries =>
      obtain ⟨fresh, rfl⟩ := dirlink_eq_some_some added_eq
      have written : (linked state ip dp inode parentInode name).OrphansKept :=
        counted.setInode readDirCounted fun noLinks => noLinks
      rw [linked, entered] at written
      rw [some.injEq, Prod.mk.injEq, written.iput, written.iput] at called
      exact .inr ⟨dp, parentInode, name, new_eq, readDir, parentIsDir, fresh, called.1.symm,
        called.2.symm⟩

/-- A call of `sys_link` that returns either fails and changes nothing, or adds
the new entry and counts it. -/
theorem sysLink_cases {state result : State} (kept : state.OrphansKept) (short : state.ShortLinks)
    {old new : Path} (called : sysLink state old new = some (result, code)) :
    (result = state ∧ ∀ ip dp inode dir name, ¬ LinkAt state old new ip dp inode dir name) ∨
      ∃ ip dp inode dir name, LinkAt state old new ip dp inode dir name ∧
        result = linked state ip dp inode dir name ∧ code = 0 := by
  rw [sysLink] at called
  obtain ⟨found, old_eq, called⟩ := bind_eq_some_iff.mp called
  cases found with
  | none =>
    cases called
    refine .inl ⟨rfl, ?_⟩
    intro ip dp inode dir name link
    exact absurd (old_eq.symm.trans link.old_eq) (by simp)
  | some ip =>
    obtain ⟨inode, read, called⟩ := bind_eq_some_iff.mp called
    by_cases isDir : inode.type = .dir
    · rw [if_pos isDir, kept.iput] at called
      cases called
      refine .inl ⟨rfl, ?_⟩
      intro ip' dp' inode' dir' name' link
      obtain rfl : ip = ip' := some.inj (some.inj (old_eq.symm.trans link.old_eq))
      obtain rfl : inode = inode' := some.inj (read.symm.trans link.read)
      exact link.notDir isDir
    · rw [if_neg isDir] at called
      rcases linkEntry_cases kept short read isDir called with
        ⟨unchanged, taken⟩ | ⟨dp, dir, name, new_eq, readDir, dirIsDir, fresh, result_eq⟩
      · refine .inl ⟨unchanged, ?_⟩
        intro ip' dp' inode' dir' name' link
        exact taken dp' dir' name' link.new_eq link.readDir link.fresh
      · exact .inr ⟨ip, dp, inode, dir, name,
          ⟨old_eq, read, isDir, new_eq, readDir, dirIsDir, fresh⟩, result_eq⟩

section

variable {old new : Path} {dp : Nat} {dir : Inode}

theorem LinkAt.enters (link : LinkAt state old new ip dp inode dir name) (nonzero : ip ≠ 0) :
    Enters state ip dp { inode with nlink := toShort (inode.nlink + 1) } dir name where
  bound := inode?_lt link.read
  notDirBefore := not_isDir link.read link.notDir
  notDir := link.notDir
  nonzero := nonzero
  readDir := link.readDir
  isDir := link.isDir
  fresh := link.fresh

theorem LinkAt.orphansHeld (link : LinkAt state old new ip dp inode dir name)
    (wf : state.WellFormed) : (linked state ip dp inode dir name).OrphansHeld := by
  have distinct : ip ≠ dp := by
    rintro rfl
    exact not_isDir link.read link.notDir ⟨dir, link.readDir, link.isDir⟩
  have counted : (state.setInode ip
      { inode with nlink := toShort (inode.nlink + 1) }).OrphansHeld :=
    wf.orphans.setInode link.read fun noLinks => absurd noLinks
      (toShort_succ_ne_zero (wf.nlink_nonneg link.read) (wf.nlink_lt link.read))
  have readDir : (state.setInode ip
      { inode with nlink := toShort (inode.nlink + 1) }).inode? dp = some dir := by
    rw [inode?_setInode_ne distinct]
    exact link.readDir
  exact counted.setInode readDir fun noLinks => noLinks

end

/-! ## `sys_unlink` -/

theorem startInum_entryName (entry : IsEntryName name) (state : State) :
    startInum state name = state.cwd := by
  rw [startInum, if_neg]
  intro leading
  exact entry.2.1 (mem_of_mem_head? leading)

/-- A directory has a name that may be removed. -/
structure UnlinkAt (state : State) (dp slot ip : Nat) (dir inode : Inode) (name : Name) :
    Prop where
  readDir : state.inode? dp = some dir
  isDir : dir.type = .dir
  notDots : ¬ (name = dotName ∨ name = dotDotName)
  slot_eq : slotOf dir.entries name = some slot
  target : dirlookup dir.entries name = some ip
  distinct : ip ≠ dp
  read : state.inode? ip = some inode
  linked : 1 ≤ inode.nlink
  empty : inode.type = .dir → isdirempty inode.entries = true

/-- Removing a name from a directory either fails and changes nothing, or
removes the entry. -/
theorem unlinkIn_cases {state result : State} (kept : state.OrphansKept) {dp : Nat} {dir : Inode}
    (readDir : state.inode? dp = some dir) (isDir : dir.type = .dir)
    (called : unlinkIn state dp name = some (result, code)) :
    (result = state ∧ ∀ slot ip dir inode, ¬ UnlinkAt state dp slot ip dir inode name) ∨
      ∃ slot ip inode, UnlinkAt state dp slot ip dir inode name ∧
        result = unlinkEntry state dp slot ip dir inode ∧ code = 0 := by
  -- Whatever removal is possible is possible with this directory inode.
  have sameDir {slot ip dir' inode} (unlink : UnlinkAt state dp slot ip dir' inode name) :
      dir' = dir :=
    some.inj (unlink.readDir.symm.trans readDir)
  rw [unlinkIn, readDir] at called
  simp only [bind_eq_bind, bind_some] at called
  by_cases dots : name = dotName ∨ name = dotDotName
  · rw [if_pos dots, kept.iput] at called
    cases called
    exact .inl ⟨rfl, fun _ _ _ _ unlink => unlink.notDots dots⟩
  rw [if_neg dots] at called
  cases slot_eq : slotOf dir.entries name with
  | none =>
    simp only [slot_eq, some.injEq, Prod.mk.injEq, kept.iput] at called
    refine .inl ⟨called.1.symm, fun _ _ _ _ unlink => ?_⟩
    have := unlink.slot_eq
    rw [sameDir unlink, slot_eq] at this
    contradiction
  | some slot =>
    cases target : dirlookup dir.entries name with
    | none =>
      simp only [slot_eq, target, some.injEq, Prod.mk.injEq, kept.iput] at called
      refine .inl ⟨called.1.symm, fun _ _ _ _ unlink => ?_⟩
      have := unlink.target
      rw [sameDir unlink, target] at this
      contradiction
    | some ip =>
      simp only [slot_eq, target, ite_none_left_eq_some, bind_eq_some_iff, Int.not_lt] at called
      obtain ⟨distinct, inode, read, links, called⟩ := called
      by_cases full : inode.type = .dir ∧ isdirempty inode.entries = false
      · rw [if_pos full, kept.iput, kept.iput] at called
        cases called
        refine .inl ⟨rfl, fun _ _ _ _ unlink => ?_⟩
        have sameTarget := unlink.target
        rw [sameDir unlink, target, some.injEq] at sameTarget
        have sameInode := unlink.read
        rw [← sameTarget, read, some.injEq] at sameInode
        have empty := unlink.empty
        rw [← sameInode, full.2] at empty
        exact Bool.false_ne_true (empty full.1)
      · rw [if_neg full] at called
        cases called
        refine .inr ⟨slot, ip, inode, ?_, rfl, rfl⟩
        refine ⟨readDir, isDir, dots, slot_eq, target, distinct, read, links, ?_⟩
        intro inodeDir
        by_contra notEmpty
        exact full ⟨inodeDir, Bool.eq_false_iff.mpr notEmpty⟩

/-- Removing an entry changes the inode table only. -/
theorem unlinkEntry_eq_with_inodes (state : State) (dp slot ip : Nat) (dir inode : Inode) :
    unlinkEntry state dp slot ip dir inode =
      { state with inodes := (unlinkEntry state dp slot ip dir inode).inodes } := by
  rw [unlinkEntry, iput_eq_with_inodes, iput_eq_with_inodes (state.setInode dp _)]
  rfl

section

variable {dp slot : Nat} {dir : Inode} (unlink : UnlinkAt state dp slot ip dir inode name)

include unlink

theorem UnlinkAt.child_eq : child state dp name = some ip :=
  (child_of_inode unlink.readDir unlink.isDir name).trans unlink.target

/-- A directory that loses a subdirectory keeps a link. -/
theorem UnlinkAt.parent_linked (wf : state.WellFormed) (childIsDir : inode.type = .dir) :
    toShort (dir.nlink - 1) ≠ 0 := by
  have links := wf.subdirLinks unlink.readDir unlink.notDots unlink.child_eq
    ⟨inode, unlink.read, childIsDir⟩
  have short := wf.nlink_lt unlink.readDir
  rw [toShort_of_mem (by omega) (by omega)]
  omega

theorem UnlinkAt.inode?_dropped (dir' : Inode) :
    ((state.setInode dp dir').iput dp).inode? ip = some inode := by
  rw [inode?_iput_ne _ unlink.distinct.symm, inode?_setInode_ne unlink.distinct.symm]
  exact unlink.read

/-- The removed entry's inode loses one link, and is freed if it was the last
one in use. -/
theorem UnlinkAt.inode?_target :
    (unlinkEntry state dp slot ip dir inode).inode? ip = none ∨
      (unlinkEntry state dp slot ip dir inode).inode? ip =
        some { inode with nlink := toShort (inode.nlink - 1) } := by
  rcases inode?_iput_self ((((state.setInode dp _).iput dp).setInode ip
    { inode with nlink := toShort (inode.nlink - 1) })) ip with freed | kept
  · exact .inl freed
  · exact .inr (kept.trans (inode?_setInode_self (unlink.inode?_dropped _) _))

/-- A file that keeps a link is not freed. -/
theorem UnlinkAt.inode?_target_of_linked (links : toShort (inode.nlink - 1) ≠ 0) :
    (unlinkEntry state dp slot ip dir inode).inode? ip =
      some { inode with nlink := toShort (inode.nlink - 1) } := by
  rw [unlinkEntry, iput_eq_self_of]
  · exact inode?_setInode_self (unlink.inode?_dropped _) _
  intro inode' read' noLinks
  rw [inode?_setInode_self (unlink.inode?_dropped _), some.injEq] at read'
  subst read'
  exact absurd noLinks links

variable (orphans : state.OrphansHeld)
include orphans

/-- Removing a file's entry changes the directory's entries only. -/
theorem UnlinkAt.unlinkEntry_file (notDir : inode.type ≠ .dir) :
    unlinkEntry state dp slot ip dir inode =
      ((state.setInode dp { dir with entries := dir.entries.set slot freeEntry }).setInode ip
        { inode with nlink := toShort (inode.nlink - 1) }).iput ip := by
  have removed : (state.setInode dp
      { dir with entries := dir.entries.set slot freeEntry }).OrphansHeld :=
    orphans.setInode unlink.readDir fun noLinks => noLinks
  rw [unlinkEntry]
  simp only [if_neg notDir]
  rw [removed.iput]

theorem UnlinkAt.inode?_parent (notDir : inode.type ≠ .dir) :
    (unlinkEntry state dp slot ip dir inode).inode? dp =
      some { dir with entries := dir.entries.set slot freeEntry } := by
  rw [unlink.unlinkEntry_file orphans notDir, inode?_iput_ne _ unlink.distinct,
    inode?_setInode_ne unlink.distinct, inode?_setInode_self unlink.readDir]

/-- Removing a file's entry takes one step from the walk. -/
theorem UnlinkAt.child_unlinkEntry (unique : UniqueNames dir.entries) (notDir : inode.type ≠ .dir)
    (other : Nat) (otherName : Name) :
    child (unlinkEntry state dp slot ip dir inode) other otherName =
      if other = dp ∧ otherName = name then none else child state other otherName := by
  by_cases atTarget : ip = other
  · subst atTarget
    rw [if_neg (fun both => unlink.distinct both.1)]
    have before : child state ip otherName = none := by
      rw [child, unlink.read, bind_some, if_neg notDir]
    rw [before, child]
    rcases unlink.inode?_target with freed | kept
    · rw [freed, bind_none]
    · rw [kept, bind_some, if_neg notDir]
  · by_cases atParent : dp = other
    · subst atParent
      rw [child_of_inode (unlink.inode?_parent orphans notDir) unlink.isDir,
        child_of_inode unlink.readDir unlink.isDir, dirlookup_remove unique unlink.slot_eq]
      simp only [true_and]
    · rw [if_neg (fun both => atParent both.1.symm), child,
        unlink.unlinkEntry_file orphans notDir, inode?_iput_ne _ atTarget,
        inode?_setInode_ne atTarget, inode?_setInode_ne atParent, child]

/-- An inode that loses its last link is freed or held, if it is not the working
directory. -/
theorem UnlinkAt.orphansHeld (notCwd : ip ≠ state.cwd)
    (parentLinked : inode.type = .dir → toShort (dir.nlink - 1) ≠ 0) :
    (unlinkEntry state dp slot ip dir inode).OrphansHeld := by
  have removed (dir' : Inode) (links : dir'.nlink = 0 → dir.nlink = 0) :
      (((state.setInode dp dir').iput dp).setInode ip
        { inode with nlink := toShort (inode.nlink - 1) }).iput ip |>.OrphansHeld := by
    have parent := orphans.setInode unlink.readDir links
    rw [parent.iput]
    intro other otherInode read noLinks
    by_cases atTarget : ip = other
    · subst atTarget
      have used := referenced_of_iput read noLinks
      rw [referenced, Bool.or_eq_true, beq_iff_eq] at used
      rw [held_iput]
      exact used.resolve_left notCwd.symm
    · rw [inode?_iput_ne _ atTarget, inode?_setInode_ne atTarget] at read
      rw [held_iput]
      exact parent other otherInode read noLinks
  rw [unlinkEntry]
  by_cases isDir : inode.type = .dir
  · simp only [if_pos isDir]
    exact removed _ fun noLinks => absurd noLinks (parentLinked isDir)
  · simp only [if_neg isDir]
    exact removed _ fun noLinks => noLinks

end

/-! ## Walks in two states -/

/-- A walk that ends in a directory goes through directories only. -/
theorem isDir_of_resolve (walked : resolve state inum names = some target)
    (isDir : IsDir state target) :
    IsDir state inum := by
  cases names with
  | nil =>
    obtain rfl : inum = target := some.inj walked
    exact isDir
  | cons name names =>
    obtain ⟨next, step, -⟩ := bind_eq_some_iff.mp walked
    exact isDir_of_child step

section

variable {dp slot : Nat} {dir : Inode}

variable (unlink : UnlinkAt state dp slot ip dir inode name) (orphans : state.OrphansHeld)
  (unique : UniqueNames dir.entries) (notDir : inode.type ≠ .dir)
include unlink orphans unique notDir

/-- Every walk to a directory stays possible after a file's entry is removed. -/
theorem UnlinkAt.resolve_unlinkEntry (walked : resolve state inum names = some target)
    (isDir : IsDir state target) :
    resolve (unlinkEntry state dp slot ip dir inode) inum names = some target := by
  refine resolve_of_steps ?_ walked
  intro inum other next names step rest
  rw [unlink.child_unlinkEntry orphans unique notDir, if_neg]
  · exact step
  · rintro ⟨rfl, rfl⟩
    rw [unlink.child_eq] at step
    cases step
    exact not_isDir unlink.read notDir (isDir_of_resolve rest isDir)

/-- Removing an entry makes no new walk possible. -/
theorem UnlinkAt.resolve_of_unlinkEntry
    (walked : resolve (unlinkEntry state dp slot ip dir inode) inum names = some target) :
    resolve state inum names = some target := by
  refine resolve_of_steps ?_ walked
  intro inum other next names found _
  rw [unlink.child_unlinkEntry orphans unique notDir, ite_none_left_eq_some] at found
  exact found.2

end

/-! ## Entries of the working directory -/

/-- A call of `sys_unlink` on an entry of the working directory that returns
either fails and changes nothing, or removes the entry. -/
theorem sysUnlink_cases {state result : State} (orphans : state.OrphansHeld)
    (entry : IsEntryName name) (called : sysUnlink state name = some (result, code)) :
    (result = state ∧ ∀ slot ip dir inode,
      ¬ UnlinkAt state state.cwd slot ip dir inode name) ∨
    ∃ slot ip dir inode, UnlinkAt state state.cwd slot ip dir inode name ∧
      result = unlinkEntry state state.cwd slot ip dir inode := by
  have parent_iff {dp last} : nameiparent state name = some (some (dp, last)) ↔
      dp = state.cwd ∧ last = name ∧ IsDir state state.cwd := by
    rw [nameiparent_eq_some_iff, elements_entryName entry, startInum_entryName entry]
    constructor
    · rintro ⟨names, names_eq, walked, isDir⟩
      obtain rfl : names = [] := by
        cases names with
        | nil => rfl
        | cons => simp at names_eq
      obtain rfl : state.cwd = dp := some.inj walked
      rw [nil_append, cons.injEq] at names_eq
      exact ⟨rfl, names_eq.1.symm, isDir⟩
    · rintro ⟨rfl, rfl, isDir⟩
      exact ⟨[], rfl, rfl, isDir⟩
  obtain ⟨parent, parent_eq, removed⟩ := bind_eq_some_iff.mp called
  cases parent with
  | none =>
    cases removed
    refine .inl ⟨rfl, fun slot ip dir inode unlink => ?_⟩
    have found := parent_iff.mpr ⟨rfl, rfl, dir, unlink.readDir, unlink.isDir⟩
    exact absurd (parent_eq.symm.trans found) (by simp)
  | some parent =>
    obtain ⟨dp, last⟩ := parent
    obtain ⟨rfl, rfl, dir, readDir, isDir⟩ := parent_iff.mp parent_eq
    rcases unlinkIn_cases orphans.kept readDir isDir removed with
      unchanged | ⟨slot, ip, inode, unlink, result_eq, -⟩
    · exact .inl unchanged
    · exact .inr ⟨slot, ip, dir, inode, unlink, result_eq⟩

/-! ## Small file systems -/

instance (state : State) (inum : Nat) : Decidable (IsDir state inum) :=
  inferInstanceAs (Decidable (∃ inode ∈ state.inode? inum, inode.type = .dir))

/-- The inodes with their numbers. -/
def State.table (state : State) : List (Inode × Nat) :=
  state.inodes.zipIdx.filterMap fun slot => slot.1.map (·, slot.2)

/-- The entries of all inodes, each with its directory, its name and its inode. -/
def State.namings (state : State) : List ((Nat × Name) × Nat) :=
  state.table.flatMap fun slot => slot.1.entries.map fun entry => ((slot.2, entry.name), entry.inum)

theorem State.mem_table (read : state.inode? inum = some inode) : (inode, inum) ∈ state.table := by
  have slot : (some inode, inum) ∈ state.inodes.zipIdx :=
    mem_zipIdx_iff_getElem?.mpr (join_eq_some_iff.mp read)
  exact mem_filterMap.mpr ⟨_, slot, rfl⟩

theorem State.mem_namings (step : child state inum name = some target) :
    ((inum, name), target) ∈ state.namings := by
  obtain ⟨inode, read, -, found⟩ := child_eq_some_iff.mp step
  obtain ⟨entry, isEntry, rfl⟩ := map_eq_some_iff.mp found
  have named := find?_some isEntry
  rw [Dirent.names, Bool.and_eq_true, beq_iff_eq] at named
  rw [← named.2]
  exact mem_flatMap.mpr ⟨_, mem_table read, mem_map_of_mem (mem_of_find?_eq_some isEntry)⟩

theorem uniqueNames_of_nodup {entries : List Dirent} (nodup : (entries.map Dirent.name).Nodup) :
    UniqueNames entries := by
  intro name
  calc nameCount entries name
      ≤ entries.countP fun entry => entry.name == name :=
        countP_mono_left fun entry _ named => (Bool.and_eq_true_iff.mp named).2
    _ = (entries.map Dirent.name).count name := by
        rw [count_eq_countP, countP_map]
        rfl
    _ ≤ 1 := nodup_iff_count_le_one.mp nodup name

/-- What makes a small file system well-formed can be checked by going through
its inodes and its entries. -/
theorem State.wellFormed_of_checked
    (inodes : ∀ slot ∈ state.table, (slot.1.entries.map Dirent.name).Nodup ∧
      0 < slot.1.nlink ∧ slot.1.nlink < 32768 ∧
      (slot.1.type = .dir → isdirempty slot.1.entries = true → slot.1.nlink ≤ 1) ∧
      (slot.1.type ≠ .dir →
        ((state.namings.filter fun naming => naming.2 = slot.2).length : Int) ≤ slot.1.nlink))
    (namings : ∀ naming ∈ state.namings,
      if naming.1.2 = dotName ∨ naming.1.2 = dotDotName then IsDir state naming.2
      else IsDir state naming.2 → ∀ inode ∈ state.inode? naming.1.1, 2 ≤ inode.nlink)
    (rootDir : IsDir state rootino) (cwdDir : IsDir state state.cwd) : state.WellFormed where
  uniqueNames read _ := uniqueNames_of_nodup (inodes _ (mem_table read)).1
  links_le := by
    intro inum inode read notDir places nodup named
    have subset : places.map (·, inum) ⊆ state.namings.filter fun naming => naming.2 = inum := by
      intro naming isNaming
      obtain ⟨place, isPlace, rfl⟩ := mem_map.mp isNaming
      exact mem_filter.mpr ⟨mem_namings (named place isPlace), decide_eq_true rfl⟩
    have distinct : (places.map (·, inum)).Nodup := nodup.map fun _ _ same => (Prod.mk.inj same).1
    have shorter := (distinct.subperm subset).length_le
    rw [length_map] at shorter
    exact Int.le_trans (Int.ofNat_le.mpr shorter) ((inodes _ (mem_table read)).2.2.2.2 notDir)
  nlink_nonneg read := Int.le_of_lt (inodes _ (mem_table read)).2.1
  nlink_lt read := (inodes _ (mem_table read)).2.2.1
  emptyDir read := (inodes _ (mem_table read)).2.2.2.1
  subdirLinks read notDots step isDir := by
    have checked := namings _ (mem_namings step)
    rw [if_neg notDots] at checked
    exact checked isDir _ read
  dotsDir dots step := by
    have checked := namings _ (mem_namings step)
    rwa [if_pos dots] at checked
  rootDir := rootDir
  cwdDir := cwdDir
  orphans _ _ read noLinks := absurd noLinks (Int.ne_of_gt (inodes _ (mem_table read)).2.1)

/-- A root directory with two files of one link each. -/
def twoFiles (ftableFree : Nat) : State where
  inodes := [
    none,
    some ⟨.dir, 1, [⟨1, dotName⟩, ⟨1, dotDotName⟩, ⟨2, [97]⟩, ⟨3, [98]⟩], []⟩,
    some ⟨.file, 1, [], [120]⟩,
    some ⟨.file, 1, [], [121]⟩]
  cwd := 1
  ofile := List.replicate 100 none
  heldElsewhere := []
  ftableFree := ftableFree

theorem twoFiles_wellFormed : (twoFiles 100).WellFormed :=
  State.wellFormed_of_checked (by decide) (by decide) (by decide) (by decide)

end XEditor.Kernel
