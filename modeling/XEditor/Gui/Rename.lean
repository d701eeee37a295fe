import XEditor.Kernel.Links
import Mathlib.Data.List.Basic

/-!
# Renaming a file

The system calls `rename_FileNameControl` makes, on the kernel state.  Renaming
is `link` followed by `unlink`, in the directory the file list shows; neither
result is looked at.
-/

namespace XEditor.Gui

open List
open Option hiding or_assoc
open Kernel Kernel.State

/-- Source `File_isDir`.  When the file cannot be opened the type is read from
an uninitialised `struct stat`, whose answer is `unset`. -/
def fileIsDir (state : State) (filename : Path) (unset : Bool) : Option (State × Bool) := do
  let (state, fd) ← sysOpen state filename 0
  let type ← sysFstat state fd
  some ((sysClose state fd).1, type.elim unset (· == .dir))

/-- Change to the directory of the file list, if it is not the root. -/
def enterDir (state : State) (path : Path) : Option State :=
  if path = [] then some state else (sysChdir state path).map Prod.fst

/-- The system calls of `rename_FileNameControl` that change names. -/
def moveName (state : State) (path oldName newName : Path) : Option State := do
  let state ← enterDir state path
  let (state, _) ← sysLink state oldName newName
  let (state, _) ← sysUnlink state oldName
  let (state, _) ← sysChdir state [slash]
  some state

/-- The system calls of `rename_FileNameControl`. -/
def renameFile (state : State) (path oldName newName : Path) (unset : Bool) :
    Option State := do
  let (state, isDir) ← fileIsDir state oldName unset
  if newName = oldName ∨ isDir = true then some state
  else moveName state path oldName newName

/-! ## What the calls around the renaming leave unchanged -/

variable {path : Path} {name : Name}

section

variable {state opened : State} (orphans : state.OrphansHeld) {omode : Nat} {fd : Int}
  (noCreate : omode &&& oCreate = 0) (called : sysOpen state path omode = some (opened, fd))
include orphans noCreate called

theorem sysOpen_state :
    (opened = state ∧ fd = -1) ∨
      ∃ slot file, fd = (slot : Nat) ∧ state.ofile[slot]? = some none ∧ 0 < state.ftableFree ∧
        opened = { state with
          ofile := state.ofile.set slot (some file)
          ftableFree := state.ftableFree - 1 } := by
  rw [sysOpen, if_neg (not_not_intro noCreate)] at called
  obtain ⟨found, -, called⟩ := bind_eq_some_iff.mp called
  cases found with
  | none =>
    rw [some.injEq, Prod.mk.injEq] at called
    exact .inl ⟨called.1.symm, called.2.symm⟩
  | some ip =>
    obtain ⟨inode, -, called⟩ := bind_eq_some_iff.mp called
    split at called
    · rw [some.injEq, Prod.mk.injEq, orphans.iput] at called
      exact .inl ⟨called.1.symm, called.2.symm⟩
    rw [some.injEq, openInode] at called
    cases slot_eq : state.ofile.findIdx? Option.isNone with
    | none =>
      rw [slot_eq, Prod.mk.injEq, orphans.iput] at called
      exact .inl ⟨called.1.symm, called.2.symm⟩
    | some slot =>
      rw [slot_eq] at called
      by_cases full : state.ftableFree = 0
      · simp only [if_pos full, Prod.mk.injEq, orphans.iput] at called
        exact .inl ⟨called.1.symm, called.2.symm⟩
      simp only [if_neg full, Prod.mk.injEq] at called
      obtain ⟨bound, free, -⟩ := List.findIdx?_eq_some_iff_getElem.mp slot_eq
      refine .inr ⟨slot, _, called.2.symm, ?_, Nat.pos_of_ne_zero full, called.1.symm⟩
      rw [getElem?_eq_getElem bound, isNone_iff_eq_none.mp free]

/-- What has been opened can be closed again, and nothing else is different. -/
theorem sysClose_opened :
    (sysClose opened fd).1 = state ∧ opened.OrphansHeld ∧ (fd < 0 → opened = state) := by
  rcases sysOpen_state orphans noCreate called with
    ⟨rfl, rfl⟩ | ⟨slot, file, rfl, free, room, rfl⟩
  · exact ⟨rfl, orphans, fun _ => rfl⟩
  obtain ⟨bound, free_eq⟩ := List.getElem?_eq_some_iff.mp free
  have isFile : State.file? { state with
      ofile := state.ofile.set slot (some file)
      ftableFree := state.ftableFree - 1 } (slot : Int) = some file := by
    rw [State.file?, Int.toNat_natCast, getElem?_set_self bound]
    rfl
  have closed : { state with
      ofile := (state.ofile.set slot (some file)).set slot none
      ftableFree := state.ftableFree - 1 + 1 } = state := by
    rw [set_set, ← free_eq, set_getElem_self, Nat.sub_add_cancel room]
  refine ⟨?_, ?_, by omega⟩
  · simp only [sysClose, isFile, Int.toNat_natCast, closed]
    exact orphans.iput file.inum
  intro inum inode read noLinks
  have isHeld := orphans inum inode read noLinks
  rw [State.held, Bool.or_eq_true, List.any_eq_true] at isHeld ⊢
  refine isHeld.imp_right ?_
  rintro ⟨other, isOpen, same⟩
  obtain ⟨i, inside, rfl⟩ := getElem_of_mem isOpen
  have notSlot : slot ≠ i := by
    rintro rfl
    rw [free_eq] at same
    cases same
  refine ⟨state.ofile[i], ?_, same⟩
  exact mem_of_getElem? ((getElem?_set_ne notSlot).trans (getElem?_eq_getElem inside))

end

/-- `File_isDir` closes what it opens. -/
theorem fileIsDir_state {state result : State} (orphans : state.OrphansHeld) {filename : Path}
    {unset isDir : Bool} (called : fileIsDir state filename unset = some (result, isDir)) :
    result = state := by
  obtain ⟨⟨opened, fd⟩, openCall, called⟩ := bind_eq_some_iff.mp called
  obtain ⟨type, -, called⟩ := bind_eq_some_iff.mp called
  rw [some.injEq, Prod.mk.injEq] at called
  rw [← called.1]
  exact (sysClose_opened orphans rfl openCall).1

/-- `sys_chdir` changes the working directory only, to a directory. -/
theorem sysChdir_state {state result : State} (orphans : state.OrphansHeld) {code : Int}
    (called : sysChdir state path = some (result, code)) :
    result = { state with cwd := result.cwd } ∧
      (result.cwd = state.cwd ∨ IsDir state result.cwd) := by
  obtain ⟨found, -, called⟩ := bind_eq_some_iff.mp called
  cases found with
  | none =>
    rw [some.injEq, Prod.mk.injEq] at called
    rw [← called.1]
    exact ⟨rfl, .inl rfl⟩
  | some ip =>
    obtain ⟨inode, read, called⟩ := bind_eq_some_iff.mp called
    by_cases isDir : inode.type = .dir
    · have moved : { state with cwd := ip }.OrphansHeld := orphans
      rw [if_pos isDir, some.injEq, Prod.mk.injEq, moved.iput] at called
      rw [← called.1]
      exact ⟨rfl, .inr ⟨inode, read, isDir⟩⟩
    · rw [if_neg isDir, some.injEq, Prod.mk.injEq, orphans.iput] at called
      rw [← called.1]
      exact ⟨rfl, .inl rfl⟩

theorem enterDir_state {state result : State} (wf : state.WellFormed)
    (called : enterDir state path = some result) :
    result = { state with cwd := result.cwd } ∧ IsDir state result.cwd := by
  unfold enterDir at called
  split at called
  · rw [some.injEq] at called
    rw [← called]
    exact ⟨rfl, wf.cwdDir⟩
  · obtain ⟨⟨entered, code⟩, moved, rfl⟩ := map_eq_some_iff.mp called
    obtain ⟨entered_eq, stayed | isDir⟩ := sysChdir_state wf.orphans moved
    · refine ⟨entered_eq, ?_⟩
      rw [stayed]
      exact wf.cwdDir
    · exact ⟨entered_eq, isDir⟩

/-! ## Whether the file keeps a name -/

/-- The file an old name led to is still there under the old or the new name,
with its content, and has not lost its last link. -/
def StillNamed (before after : State) (dir : Nat) (oldName newName : Path) : Prop :=
  ∀ ip inode, namei { before with cwd := dir } oldName = some (some ip) →
    before.inode? ip = some inode →
      (namei { after with cwd := dir } oldName = some (some ip) ∨
        namei { after with cwd := dir } newName = some (some ip)) ∧
      ∃ inode', after.inode? ip = some inode' ∧ inode'.type = inode.type ∧
        inode'.entries = inode.entries ∧ inode'.content = inode.content ∧
          (inode.nlink ≠ 0 → inode'.nlink ≠ 0)

/-- The old name can be removed from the working directory. -/
def CanUnlink (state : State) (oldName : Name) : Prop :=
  ∃ slot ip dir inode, UnlinkAt state state.cwd slot ip dir inode oldName

/-- The old name leads to a file, and the new one to an entry of its own: a
fresh one, or another one that leads to the same file already. -/
def HasOwnEntry (state : State) (oldName : Name) (newName : Path) : Prop :=
  ∃ ip inode dp name, child state state.cwd oldName = some ip ∧
    state.inode? ip = some inode ∧ inode.type ≠ .dir ∧
    nameiparent state newName = some (some (dp, name)) ∧
    (child state dp name = none ∨
      child state dp name = some ip ∧ (dp, name) ≠ (state.cwd, oldName))

section

variable {state : State} {oldName : Name}

theorem namei_entryName_iff (entry : IsEntryName oldName) {ip : Nat} :
    namei state oldName = some (some ip) ↔ child state state.cwd oldName = some ip := by
  rw [namei_eq_some_iff, elements_entryName entry, startInum_entryName entry, resolve_cons]
  cases child state state.cwd oldName <;> rfl

theorem child_ne_zero {inum ip : Nat} (step : child state inum name = some ip) : ip ≠ 0 := by
  obtain ⟨inode, -, -, found⟩ := child_eq_some_iff.mp step
  exact dirlookup_ne_zero found

end

section

variable {state : State} {oldName : Name} {newName : Path} {inode dir : Inode}

section

variable (entry : IsEntryName oldName) {ip dp : Nat}
  (link : LinkAt state oldName newName ip dp inode dir name)
include entry link

/-- After a link to a file, the old name still leads to that file. -/
theorem unlink_target_linked {slot ip' : Nat} {dir' inode' : Inode}
    (unlink : UnlinkAt (linked state ip dp inode dir name) state.cwd slot ip' dir' inode' oldName) :
    ip' = ip ∧ inode' = { inode with nlink := toShort (inode.nlink + 1) } := by
  have step := (namei_entryName_iff entry).mp link.old_eq
  have enters := link.enters (child_ne_zero step)
  have found := unlink.child_eq
  rw [enters.child_entered] at found
  have ip_eq : ip' = ip := by
    split at found
    · exact (some.inj found).symm
    · exact some.inj (found.symm.trans step)
  refine ⟨ip_eq, ?_⟩
  have read := unlink.read
  rw [ip_eq, enters.inode?_file] at read
  exact (some.inj read).symm

/-- A link that can be made gives the new name a fresh entry. -/
theorem hasOwnEntry_of_linkAt : HasOwnEntry state oldName newName := by
  refine ⟨ip, inode, dp, name, (namei_entryName_iff entry).mp link.old_eq, link.read,
    link.notDir, link.new_eq, .inl ?_⟩
  rw [child_of_inode link.readDir link.isDir]
  exact link.fresh

end

variable (wf : state.WellFormed) (entry : IsEntryName oldName)

include wf entry

section

variable {ip dp : Nat} (link : LinkAt state oldName newName ip dp inode dir name)
include link

/-- When nothing is removed, the old name stays. -/
theorem stillNamed_linked :
    StillNamed state (linked state ip dp inode dir name) state.cwd oldName newName := by
  intro ip' inode' named read
  obtain rfl : ip = ip' := by
    have := link.old_eq.symm.trans named
    rwa [some.injEq, some.injEq] at this
  obtain rfl : inode = inode' := some.inj (link.read.symm.trans read)
  have step := (namei_entryName_iff entry).mp link.old_eq
  have enters := link.enters (child_ne_zero step)
  refine ⟨.inl ?_, _, enters.inode?_file, rfl, rfl, rfl, fun _ =>
    toShort_succ_ne_zero (wf.nlink_nonneg read) (wf.nlink_lt read)⟩
  refine (namei_entryName_iff entry).mpr ?_
  refine (enters.child_entered _ _).trans ?_
  split
  · rfl
  · exact step

/-- A link to the new name and the removal of the old one move the file. -/
theorem stillNamed_moved {slot ip' : Nat} {dir' inode' : Inode}
    (unlink : UnlinkAt (linked state ip dp inode dir name) state.cwd slot ip' dir' inode' oldName) :
    StillNamed state
      (unlinkEntry (linked state ip dp inode dir name) state.cwd slot ip' dir' inode')
      state.cwd oldName newName := by
  intro target targetInode named read
  obtain rfl : ip = target := by
    have := link.old_eq.symm.trans named
    rwa [some.injEq, some.injEq] at this
  obtain rfl : inode = targetInode := some.inj (link.read.symm.trans read)
  have step := (namei_entryName_iff entry).mp link.old_eq
  have enters := link.enters (child_ne_zero step)
  have places : ¬ (dp = state.cwd ∧ name = oldName) := by
    rintro ⟨rfl, rfl⟩
    rw [child_of_inode link.readDir link.isDir, link.fresh] at step
    contradiction
  obtain ⟨rfl, inode_eq⟩ := unlink_target_linked entry link unlink
  have notDir : inode'.type ≠ .dir := by
    rw [inode_eq]
    exact link.notDir
  have unlinked := unlink.child_unlinkEntry (link.orphansHeld wf)
    (enters.uniqueNames wf unlink.readDir unlink.isDir) notDir
  have counted : toShort (inode'.nlink - 1) = inode.nlink := by
    rw [inode_eq]
    exact toShort_succ_pred (by have := wf.nlink_nonneg read; omega) (wf.nlink_lt read)
  have positive := one_le_nlink wf step read link.notDir
  constructor
  · right
    obtain ⟨names, names_eq, walked, isDir⟩ := nameiparent_eq_some_iff.mp link.new_eq
    rw [namei_eq_some_iff, names_eq, resolve_concat, bind_eq_some_iff]
    refine ⟨dp, ?_, ?_⟩
    · exact unlink.resolve_unlinkEntry (link.orphansHeld wf)
        (enters.uniqueNames wf unlink.readDir unlink.isDir) notDir
        (enters.resolve_entered walked) ⟨_, enters.inode?_parent, link.isDir⟩
    · refine (unlinked dp name).trans ?_
      rw [if_neg places, enters.child_entered, if_pos ⟨rfl, rfl⟩]
  · refine ⟨_, unlink.inode?_target_of_linked ?_, ?_, ?_, ?_, fun _ => ?_⟩
    · omega
    · rw [inode_eq]
    · rw [inode_eq]
    · rw [inode_eq]
    · change toShort (inode'.nlink - 1) ≠ 0
      omega

end

/-- An emptied directory loses its only link. -/
theorem not_stillNamed_of_dir {slot ip : Nat}
    (unlink : UnlinkAt state state.cwd slot ip dir inode oldName) (isDir : inode.type = .dir) :
    ¬ StillNamed state (unlinkEntry state state.cwd slot ip dir inode) state.cwd oldName
      newName := by
  intro kept
  obtain ⟨-, inode', read', -, -, -, links⟩ :=
    kept ip inode ((namei_entryName_iff entry).mpr unlink.child_eq) unlink.read
  have one : inode.nlink = 1 := by
    have := wf.emptyDir unlink.read isDir (unlink.empty isDir)
    have := unlink.linked
    omega
  rcases unlink.inode?_target with freed | dropped
  · exact absurd (freed.symm.trans read') (by simp)
  obtain rfl := some.inj (dropped.symm.trans read')
  refine links (by omega) ?_
  rw [one]
  rfl

/-- A file that is still named after the removal has another entry, to which the
new name leads. -/
theorem hasOwnEntry_of_stillNamed {slot ip : Nat}
    (unlink : UnlinkAt state state.cwd slot ip dir inode oldName) (notDir : inode.type ≠ .dir)
    (kept : StillNamed state (unlinkEntry state state.cwd slot ip dir inode) state.cwd oldName
      newName) :
    HasOwnEntry state oldName newName := by
  have unique := wf.uniqueNames unlink.readDir unlink.isDir
  have unlinked := unlink.child_unlinkEntry wf.orphans unique notDir
  obtain ⟨names, -⟩ := kept ip inode ((namei_entryName_iff entry).mpr unlink.child_eq) unlink.read
  rcases names with old | new
  · rw [namei_entryName_iff entry] at old
    have removed := (unlinked state.cwd oldName).symm.trans old
    rw [if_pos ⟨rfl, rfl⟩] at removed
    contradiction
  · rw [namei_eq_some_iff] at new
    rcases eq_nil_or_concat' (elements newName) with empty | ⟨above, last, elements_eq⟩
    · -- Without elements the new name is a directory, not the file.
      rw [empty, resolve_nil, some.injEq, startInum] at new
      split at new
      · obtain ⟨root, readRoot, rootDir⟩ := wf.rootDir
        rw [new, unlink.read, some.injEq] at readRoot
        exact absurd (readRoot ▸ rootDir) notDir
      · exact absurd new.symm unlink.distinct
    · rw [elements_eq, resolve_concat, bind_eq_some_iff] at new
      obtain ⟨dp, walked, lastStep⟩ := new
      have lastChild := (unlinked dp last).symm.trans lastStep
      rw [ite_none_left_eq_some] at lastChild
      refine ⟨ip, inode, dp, last, unlink.child_eq, unlink.read, notDir, ?_, .inr ⟨lastChild.2, ?_⟩⟩
      · rw [nameiparent_eq_some_iff]
        exact ⟨above, elements_eq, unlink.resolve_of_unlinkEntry wf.orphans unique notDir walked,
          isDir_of_child lastChild.2⟩
      · rw [ne_eq, Prod.mk.injEq]
        exact lastChild.1

/-- The removal of one of two entries keeps the file under the other one. -/
theorem stillNamed_of_other_entry {slot ip dp : Nat}
    (unlink : UnlinkAt state state.cwd slot ip dir inode oldName) (notDir : inode.type ≠ .dir)
    (new_eq : nameiparent state newName = some (some (dp, name)))
    (sameFile : child state dp name = some ip) (other : (dp, name) ≠ (state.cwd, oldName)) :
    StillNamed state (unlinkEntry state state.cwd slot ip dir inode) state.cwd oldName
      newName := by
  have unique := wf.uniqueNames unlink.readDir unlink.isDir
  have unlinked := unlink.child_unlinkEntry wf.orphans unique notDir
  intro target targetInode named read
  rw [namei_entryName_iff entry] at named
  obtain rfl : ip = target := some.inj (unlink.child_eq.symm.trans named)
  obtain rfl : inode = targetInode := some.inj (unlink.read.symm.trans read)
  have links := two_le_nlink wf other sameFile unlink.child_eq read notDir
  have dropped : toShort (inode.nlink - 1) = inode.nlink - 1 :=
    toShort_of_mem (by omega) (by have := wf.nlink_lt read; omega)
  constructor
  · right
    obtain ⟨above, elements_eq, walked, parentDir⟩ := nameiparent_eq_some_iff.mp new_eq
    rw [namei_eq_some_iff, elements_eq, resolve_concat, bind_eq_some_iff]
    refine ⟨dp, unlink.resolve_unlinkEntry wf.orphans unique notDir walked parentDir, ?_⟩
    refine (unlinked dp name).trans ?_
    rw [ne_eq, Prod.mk.injEq] at other
    rw [if_neg other]
    exact sameFile
  · refine ⟨_, unlink.inode?_target_of_linked (by omega), rfl, rfl, rfl, fun _ => ?_⟩
    change toShort (inode.nlink - 1) ≠ 0
    omega

/-- When the link failed, removing the old name keeps the file only if the new
name leads to it by another entry. -/
theorem stillNamed_iff_hasOwnEntry
    (noLink : ∀ ip dp inode dir name, ¬ LinkAt state oldName newName ip dp inode dir name)
    {slot ip : Nat} (unlink : UnlinkAt state state.cwd slot ip dir inode oldName) :
    StillNamed state (unlinkEntry state state.cwd slot ip dir inode) state.cwd oldName newName ↔
      HasOwnEntry state oldName newName := by
  by_cases isDir : inode.type = .dir
  · refine iff_of_false (not_stillNamed_of_dir wf entry unlink isDir) ?_
    rintro ⟨ip', inode', -, -, step', read', notDir, -⟩
    obtain rfl := some.inj (unlink.child_eq.symm.trans step')
    obtain rfl := some.inj (unlink.read.symm.trans read')
    exact notDir isDir
  constructor
  · exact hasOwnEntry_of_stillNamed wf entry unlink isDir
  rintro ⟨ip', inode', dp, name, step', read', -, new_eq, fresh | ⟨sameFile, other⟩⟩
  · obtain ⟨-, -, -, parent, readParent, parentDir⟩ := nameiparent_eq_some_iff.mp new_eq
    rw [child_of_inode readParent parentDir] at fresh
    exact absurd ⟨(namei_entryName_iff entry).mpr unlink.child_eq, unlink.read, isDir, new_eq,
      readParent, parentDir, fresh⟩ (noLink ip dp inode parent name)
  · obtain rfl := some.inj (unlink.child_eq.symm.trans step')
    exact stillNamed_of_other_entry wf entry unlink isDir new_eq sameFile other

end

/-- The directory in which the renaming takes place. -/
def workDir (state : State) (path : Path) : Nat :=
  ((enterDir state path).map State.cwd).getD state.cwd

/-- When renaming keeps the file: nothing is done, the old name cannot be
removed, or the new name leads to an entry of its own. -/
def RenameKeeps (state : State) (path : Path) (oldName : Name) (newName : Path)
    (unset : Bool) : Prop :=
  newName = oldName ∨ (fileIsDir state oldName unset).map Prod.snd = some true ∨
    ¬ CanUnlink { state with cwd := workDir state path } oldName ∨
    HasOwnEntry { state with cwd := workDir state path } oldName newName

/-- What becomes of a file when the system calls are made. -/
theorem moveName_keeps_file_iff {state after : State} (wf : state.WellFormed) {oldName : Name}
    (entry : IsEntryName oldName) {newName : Path}
    (moved : moveName state path oldName newName = some after) :
    StillNamed state after (workDir state path) oldName newName ↔
      ¬ CanUnlink { state with cwd := workDir state path } oldName ∨
        HasOwnEntry { state with cwd := workDir state path } oldName newName := by
  rw [moveName] at moved
  obtain ⟨entered, enter, fromEntered⟩ := bind_eq_some_iff.mp moved
  obtain ⟨⟨relinked, linkCode⟩, linkCall, fromLink⟩ := bind_eq_some_iff.mp fromEntered
  obtain ⟨⟨removed, unlinkCode⟩, unlinkCall, fromUnlink⟩ := bind_eq_some_iff.mp fromLink
  obtain ⟨⟨returned, chdirCode⟩, chdirCall, returned_eq⟩ := bind_eq_some_iff.mp fromUnlink
  obtain ⟨entered_eq, isDir⟩ := enterDir_state wf enter
  have workDir_eq : entered.cwd = workDir state path := by
    rw [workDir, enter]
    rfl
  rw [workDir_eq] at entered_eq isDir
  rw [entered_eq] at linkCall
  have wfHere := wf.withCwd isDir
  -- Going back to the root changes no name.
  have back (orphans : removed.OrphansHeld) :
      StillNamed state after (workDir state path) oldName newName ↔
        StillNamed state removed (workDir state path) oldName newName := by
    obtain ⟨sameNames, -⟩ := sysChdir_state orphans chdirCall
    rw [some.injEq] at returned_eq
    rw [← returned_eq, sameNames]
    rfl
  rcases sysLink_cases wfHere.orphans.kept wfHere.short linkCall with
    ⟨rfl, noLink⟩ | ⟨ip, dp, inode, dir, name, link, rfl, -⟩
  · rcases sysUnlink_cases wfHere.orphans entry unlinkCall with
      ⟨rfl, refused⟩ | ⟨slot, ip, dir, inode, unlink, rfl⟩
    · rw [back wfHere.orphans]
      refine iff_of_true ?_ (.inl ?_)
      · intro ip inode named read
        exact ⟨.inl named, inode, read, rfl, rfl, rfl, id⟩
      · rintro ⟨slot, ip, dir, inode, unlink⟩
        exact refused slot ip dir inode unlink
    · rw [back (unlink.orphansHeld wfHere.orphans unlink.distinct (unlink.parent_linked wfHere)),
        or_iff_right (not_not_intro ⟨slot, ip, dir, inode, unlink⟩)]
      exact stillNamed_iff_hasOwnEntry wfHere entry noLink unlink
  · have ownEntry := hasOwnEntry_of_linkAt entry link
    have orphans := link.orphansHeld wfHere
    rcases sysUnlink_cases orphans entry unlinkCall with
      ⟨rfl, -⟩ | ⟨slot, ip', dir', inode', unlink, rfl⟩
    · rw [back orphans]
      exact iff_of_true (stillNamed_linked wfHere entry link) (.inr ownEntry)
    have notDir : inode'.type ≠ .dir := by
      rw [(unlink_target_linked entry link unlink).2]
      exact link.notDir
    rw [back (unlink.orphansHeld orphans unlink.distinct fun isDir => absurd isDir notDir)]
    exact iff_of_true (stillNamed_moved wfHere entry link unlink) (.inr ownEntry)

/-- `rename_FileNameControl` keeps a file under one of the two names exactly when
it does nothing, cannot remove the old name, or has made or found an entry of
its own for the new name.  It removes the old name even if the link failed. -/
theorem renameFile_keeps_file_iff {state after : State} (wf : state.WellFormed)
    {path : Path} {oldName : Name} (entry : IsEntryName oldName) {newName : Path} {unset : Bool}
    (renamed : renameFile state path oldName newName unset = some after) :
    StillNamed state after (workDir state path) oldName newName ↔
      RenameKeeps state path oldName newName unset := by
  obtain ⟨⟨checked, isDir⟩, check, moved⟩ := bind_eq_some_iff.mp renamed
  have checked_eq := fileIsDir_state wf.orphans check
  rw [checked_eq] at check moved
  rw [RenameKeeps, check, map_some, some.injEq]
  by_cases idle : newName = oldName ∨ isDir = true
  · simp only [if_pos idle, some.injEq] at moved
    subst moved
    refine iff_of_true ?_ (or_assoc.mp (.inl idle))
    intro ip inode named read
    exact ⟨.inl named, inode, read, rfl, rfl, rfl, id⟩
  · simp only [if_neg idle] at moved
    rw [← or_assoc, or_iff_right idle]
    exact moveName_keeps_file_iff wf entry moved

theorem rename_to_fresh_name :
    ∃ after, renameFile (twoFiles 100) [] [97] [99] false = some after ∧
      StillNamed (twoFiles 100) after (workDir (twoFiles 100) []) [97] [99] := by
  have returns : (renameFile (twoFiles 100) [] [97] [99] false).isSome = true := by decide
  obtain ⟨after, renamed⟩ := isSome_iff_exists.mp returns
  refine ⟨after, renamed,
    (renameFile_keeps_file_iff twoFiles_wellFormed (by decide) renamed).mpr ?_⟩
  right
  right
  right
  exact ⟨2, _, 1, [99], by decide, rfl, by decide, by decide, .inl (by decide)⟩

/-- Renaming a file to the name of another one removes the file. -/
theorem rename_to_existing_name_loses_file :
    ∃ after, renameFile (twoFiles 100) [] [97] [98] false = some after ∧
      ¬ StillNamed (twoFiles 100) after (workDir (twoFiles 100) []) [97] [98] := by
  have names : (renameFile (twoFiles 100) [] [97] [98] false).map (fun after =>
      (namei { after with cwd := 1 } [97], namei { after with cwd := 1 } [98])) =
        some (some none, some (some 3)) := by
    decide
  obtain ⟨after, renamed, names⟩ := map_eq_some_iff.mp names
  rw [Prod.mk.injEq] at names
  refine ⟨after, renamed, ?_⟩
  intro kept
  obtain ⟨old | new, -⟩ := kept 2 ⟨.file, 1, [], [120]⟩ (by decide) rfl
  · exact absurd (names.1.symm.trans old) (by simp)
  · exact absurd (names.2.symm.trans new) (by simp)

end XEditor.Gui
