import XEditor.Kernel.DirectoryTree
import XEditor.Lib.Run

/-!
# Link counts

Every completed call keeps the link count of each inode equal to its number of
links, as long as nothing is made in a directory that has been removed, the 16
bits of the count suffice and a new file gets a descriptor.
-/

namespace XEditor.Kernel

open List Option State Run

/-- The state between two calls: a tree, and no inode that only waits to be
freed. -/
structure Tidy (state : State) : Prop where
  tree : Tree state
  kept : state.OrphansKept

/-- What a completed call leaves: the image is well formed again, and a failed
call has not changed it. -/
structure Completes (state result : State) (code : Int) : Prop where
  tidy : Tidy result
  elsewhere : result.heldElsewhere = state.heldElsewhere
  failed : code = -1 → result.inodes = state.inodes

variable {state result : State} {name : Name} {code : Int} {path : Path} {type : FileType}

theorem Completes.unchanged (tidy : Tidy state) (code : Int) : Completes state state code :=
  ⟨tidy, rfl, fun _ => rfl⟩

/-- Dropping a reference to the only inode that may wait to be freed. -/
theorem orphansKept_iput {inum : Nat}
    (others : ∀ other inode, other ≠ inum → state.inode? other = some inode → inode.nlink = 0 →
      state.referenced other = true) : (state.iput inum).OrphansKept := by
  have referenced_eq (other : Nat) :
      (state.iput inum).referenced other = state.referenced other := by
    rw [iput_eq_with_inodes]
    rfl
  intro other inode read noLinks
  rw [referenced_eq]
  by_cases same : inum = other
  · subst same
    exact referenced_of_iput read noLinks
  · rw [inode?_iput_ne state same] at read
    exact others other inode (Ne.symm same) read noLinks

/-! ## `sys_link` and `sys_unlink` -/

variable {ip dp : Nat} {dir inode : Inode} {found : Option Nat}

theorem Enters.orphansKept {file : Inode} (enters : Enters state ip dp file dir name)
    (kept : state.OrphansKept) (linked : file.nlink ≠ 0) :
    (entered state ip dp file dir name).OrphansKept := by
  intro other inode read noLinks
  rcases enters.inode?_entered_cases read with ⟨rfl, rfl⟩ | ⟨rfl, rfl⟩ | before
  · exact kept other dir enters.readDir noLinks
  · exact absurd noLinks linked
  · exact kept other inode before noLinks

/-- A link is made in a linked directory, and the count has room for it. -/
def LinkSafe (state : State) (old new : Path) : Prop :=
  ∀ ip dp inode dir name, LinkAt state old new ip dp inode dir name →
    0 < dir.nlink ∧ inode.nlink < 32767

theorem sysLink_completes (tidy : Tidy state) {old new : Path} (safe : LinkSafe state old new)
    (called : sysLink state old new = some (result, code)) : Completes state result code := by
  rcases sysLink_cases tidy.kept tidy.tree.shortLinks called with
    ⟨rfl, -⟩ | ⟨ip, dp, inode, dir, name, link, rfl, rfl⟩
  · exact .unchanged tidy code
  obtain ⟨linked, room⟩ := safe ip dp inode dir name link
  have nonneg := (tidy.tree.shortLinks link.read).1
  have enters := link.enters (tidy.tree.nonzero link.read)
  have count : toShort (inode.nlink + 1) = inode.nlink + 1 :=
    toShort_of_mem (by omega) (by omega)
  refine ⟨⟨tidy.tree.enter enters linked ?_ ?_, enters.orphansKept tidy.kept ?_⟩, rfl, nofun⟩
  · rw [link.read]
    exact count
  · refine Int.lt_of_le_of_lt (Int.le_of_eq count) ?_
    omega
  · intro wrapped
    have := count.symm.trans wrapped
    omega

theorem UnlinkAt.unlinkEntry_eq {slot : Nat} (unlink : UnlinkAt state dp slot ip dir inode name)
    (tree : Tree state) :
    unlinkEntry state dp slot ip dir inode = (removedName state dp slot ip dir inode).iput ip := by
  have parentKept : (state.setInode dp (lessParent dir inode slot)).iput dp =
      state.setInode dp (lessParent dir inode slot) := by
    apply iput_eq_self_of
    intro found read noLinks
    rw [inode?_setInode_self unlink.readDir] at read
    cases read
    exact absurd noLinks (Int.ne_of_gt (unlink.nlink_lessParent tree).2)
  have parent_eq : (if inode.type = .dir then
      { dir with
        entries := dir.entries.set slot freeEntry
        nlink := toShort (dir.nlink - 1) }
      else { dir with entries := dir.entries.set slot freeEntry }) =
      lessParent dir inode slot := by
    rw [lessParent]
    split <;> rfl
  rw [unlinkEntry, removedName, ← parentKept]
  simp only [← parent_eq]

theorem sysUnlink_completes (tidy : Tidy state)
    (called : sysUnlink state path = some (result, code)) : Completes state result code := by
  rw [sysUnlink] at called
  obtain ⟨parent, parent_eq, called⟩ := bind_eq_some_iff.mp called
  cases parent with
  | none =>
    cases called
    exact .unchanged tidy _
  | some parent =>
    obtain ⟨-, -, -, dir, readDir, isDir⟩ := nameiparent_eq_some_iff.mp parent_eq
    rcases unlinkIn_cases tidy.kept readDir isDir called with
      ⟨rfl, -⟩ | ⟨slot, ip, inode, unlink, rfl, rfl⟩
    · exact .unchanged tidy code
    rw [unlink.unlinkEntry_eq tidy.tree]
    refine ⟨⟨(tidy.tree.remove unlink).iput ip, orphansKept_iput ?_⟩, ?_,
      fun failed => absurd failed (by decide)⟩
    · intro other found notTarget read noLinks
      rcases unlink.inode?_removedName_cases read with ⟨rfl, rfl⟩ | ⟨rfl, -⟩ | before
      · exact absurd noLinks (Int.ne_of_gt (unlink.nlink_lessParent tidy.tree).2)
      · exact absurd rfl notTarget
      · exact tidy.kept other found before noLinks
    · rw [iput_eq_with_inodes]
      rfl

/-! ## `create` -/

theorem createDots_eq (dir : Inode) (nonzero : ip ≠ 0) :
    createDots state dp ip dir = some ((state.setInode dp
      { dir with nlink := toShort (dir.nlink + 1) }).setInode ip (newDir ip dp),
      { dir with nlink := toShort (dir.nlink + 1) }) := by
  have first : dirlink [] dotName ip = some (some [⟨ip, dotName⟩]) := rfl
  have absent : dirlookup [⟨ip, dotName⟩] dotDotName = none := by
    rw [dirlookup, find?_cons, Dirent.names, bne_iff_ne.mpr nonzero]
    rfl
  have second : dirlink [⟨ip, dotName⟩] dotDotName dp =
      some (some [⟨ip, dotName⟩, ⟨dp, dotDotName⟩]) := by
    have slot : freeSlot [⟨ip, dotName⟩] = 1 := by
      rw [freeSlot, findIdx?_cons, beq_eq_false_iff_ne.mpr nonzero]
      rfl
    rw [dirlink, absent, slot]
    rfl
  rw [createDots]
  simp only [first, second, bind_eq_bind, bind_some]
  rfl

/-- What a new inode is written over is gone in the end. -/
theorem setInode_madeDir (distinct : ip ≠ dp) (dir new : Inode) (name : Name) (between : Inode) :
    ((((state.setInode ip new).setInode dp between).setInode ip (newDir ip dp)).setInode dp
      (newParent dir ip name)) = madeDir state ip dp dir name := by
  rw [madeDir, setInode, setInode, setInode, setInode, setInode, setInode,
    set_comm _ _ distinct.symm, set_set, set_set]

/-- A call of `create` under a name that is not in use. -/
structure CreatesAt (state : State) (path : Path) (dp : Nat) (dir : Inode) (name : Name) :
    Prop where
  parent_eq : nameiparent state path = some (some (dp, name))
  readDir : state.inode? dp = some dir
  fresh : dirlookup dir.entries name = none

/-- `create` finds a file, fails, or makes a new inode under a fresh name. -/
theorem createNode_cases (kept : state.OrphansKept)
    (called : createNode state path type = some (result, found)) :
    result = state ∨
    ∃ dp dir name ip, CreatesAt state path dp dir name ∧ dir.type = .dir ∧
      ialloc state = some ip ∧ found = some ip ∧
      result = (if type = .dir then madeDir state ip dp dir name
        else entered state ip dp ⟨type, 1, [], []⟩ dir name).iput dp := by
  rw [createNode] at called
  obtain ⟨parent, parent_eq, called⟩ := bind_eq_some_iff.mp called
  cases parent with
  | none =>
    cases called
    exact .inl rfl
  | some parent =>
    obtain ⟨dp, name⟩ := parent
    obtain ⟨-, -, -, dir, readDir, isDir⟩ := nameiparent_eq_some_iff.mp parent_eq
    simp only [readDir, bind_eq_bind, bind_some] at called
    cases lookup : dirlookup dir.entries name with
    | some ip =>
      simp only [lookup, bind_eq_some_iff] at called
      obtain ⟨inode, -, called⟩ := called
      rw [kept.iput, kept.iput] at called
      split at called <;> (cases called; exact .inl rfl)
    | none =>
      simp only [lookup] at called
      obtain ⟨ip, allocated, called⟩ := bind_eq_some_iff.mp called
      obtain ⟨nonzero, bound, free⟩ := ialloc_spec allocated
      have distinct : ip ≠ dp := by
        rintro rfl
        exact nomatch free.symm.trans readDir
      refine .inr ⟨dp, dir, name, ip, ⟨parent_eq, readDir, lookup⟩, isDir, allocated, ?_⟩
      by_cases makesDir : type = .dir
      · subst makesDir
        simp only [if_true, createDots_eq dir nonzero, bind_some] at called
        obtain ⟨added, added_eq, called⟩ := bind_eq_some_iff.mp called
        cases added with
        | none => contradiction
        | some entries =>
          obtain ⟨-, rfl⟩ := dirlink_eq_some_some added_eq
          cases called
          refine ⟨rfl, ?_⟩
          rw [← setInode_madeDir distinct dir _ name]
          rfl
      · simp only [if_neg makesDir] at called
        obtain ⟨added, added_eq, called⟩ := bind_eq_some_iff.mp called
        cases added with
        | none => contradiction
        | some entries =>
          obtain ⟨-, rfl⟩ := dirlink_eq_some_some added_eq
          cases called
          refine ⟨rfl, ?_⟩
          rw [if_neg makesDir]
          rfl

theorem MakesDir.orphansKept (makes : MakesDir state ip dp dir name) (kept : state.OrphansKept) :
    (madeDir state ip dp dir name).OrphansKept := by
  intro other inode read noLinks
  rcases makes.inode?_madeDir_cases read with ⟨rfl, rfl⟩ | ⟨rfl, rfl⟩ | before
  · have links := makes.linked
    rw [makes.nlink_newParent] at noLinks
    omega
  · exact absurd noLinks Int.one_ne_zero
  · exact kept other inode before noLinks

/-- A new inode is made in a linked directory, and the count of the directory
has room for a new directory. -/
def CreateSafe (state : State) (path : Path) (type : FileType) : Prop :=
  ∀ dp dir name, CreatesAt state path dp dir name →
    0 < dir.nlink ∧ (type = .dir → dir.nlink < 32767)

/-- `create` keeps a well-formed image well formed. -/
theorem createNode_tidy (tidy : Tidy state) (safe : CreateSafe state path type)
    (called : createNode state path type = some (result, found)) :
    Tidy result ∧ result = { state with inodes := result.inodes } ∧
      (result = state ∨
        ∃ dp dir name ip, CreatesAt state path dp dir name ∧ found = some ip) := by
  rcases createNode_cases tidy.kept called with
    rfl | ⟨dp, dir, name, ip, creates, isDir, allocated, found_eq, result_eq⟩
  · exact ⟨tidy, rfl, .inl rfl⟩
  obtain ⟨nonzero, bound, free⟩ := ialloc_spec allocated
  obtain ⟨linked, room⟩ := safe dp dir name creates
  have made : Tidy (if type = .dir then madeDir state ip dp dir name
      else entered state ip dp ⟨type, 1, [], []⟩ dir name) := by
    split
    · rename_i makesDir
      have makes : MakesDir state ip dp dir name :=
        ⟨bound, free, nonzero, creates.readDir, isDir, creates.fresh, linked, room makesDir⟩
      exact ⟨tidy.tree.makeDir makes, makes.orphansKept tidy.kept⟩
    · rename_i notDir
      have notDirBefore : ¬ IsDir state ip := by
        rintro ⟨inode, read, -⟩
        exact nomatch free.symm.trans read
      have enters : Enters state ip dp ⟨type, 1, [], []⟩ dir name :=
        ⟨bound, notDirBefore, notDir, nonzero, creates.readDir, isDir, creates.fresh⟩
      have short : (1 : Int) < 32768 := by decide
      refine ⟨tidy.tree.enter enters linked ?_ short, enters.orphansKept tidy.kept Int.one_ne_zero⟩
      rw [free]
      rfl
  rw [made.kept.iput] at result_eq
  refine ⟨result_eq ▸ made, ?_, .inr ⟨dp, dir, name, ip, creates, found_eq⟩⟩
  rw [result_eq]
  split <;> rfl

/-- `sys_mkdir` and `sys_mknod`. -/
theorem sysMake_completes (tidy : Tidy state) (safe : CreateSafe state path type)
    (called : sysMake state path type = some (result, code)) : Completes state result code := by
  obtain ⟨⟨made, found⟩, created, called⟩ := bind_eq_some_iff.mp called
  obtain ⟨madeTidy, made_eq, outcome⟩ := createNode_tidy tidy safe created
  cases found with
  | none =>
    cases called
    rcases outcome with rfl | ⟨_, _, _, _, _, found_eq⟩
    · exact .unchanged tidy _
    · contradiction
  | some ip =>
    rw [some.injEq, madeTidy.kept.iput] at called
    obtain ⟨rfl, rfl⟩ := called
    refine ⟨madeTidy, ?_, nofun⟩
    rw [made_eq]

/-! ## Descriptors -/

theorem referenced_set {fd : Nat} {slot : Option OpenFile} {ftableFree other : Nat}
    (dropped : ∀ file, state.ofile[fd]? = some (some file) → file.inum ≠ other)
    (used : state.referenced other = true) :
    { state with ofile := state.ofile.set fd slot, ftableFree := ftableFree }.referenced other =
      true := by
  rw [referenced, held, Bool.or_eq_true, Bool.or_eq_true, List.any_eq_true] at used
  rw [referenced, held, Bool.or_eq_true, Bool.or_eq_true, List.any_eq_true]
  refine used.imp_right (Or.imp_right ?_)
  rintro ⟨file, mem, names⟩
  obtain ⟨index, get⟩ := getElem?_of_mem mem
  refine ⟨file, ?_, names⟩
  by_cases same : fd = index
  · subst same
    cases file with
    | none => contradiction
    | some opened => exact absurd (beq_iff_eq.mp names) (dropped opened get)
  · rw [← getElem?_set_ne same] at get
    exact mem_of_getElem? get

theorem openInode_completes (tidy : Tidy state) (ip omode : Nat) :
    Completes state (openInode state ip omode).1 (openInode state ip omode).2 := by
  rw [openInode]
  cases free : state.ofile.findIdx? Option.isNone with
  | none =>
    rw [tidy.kept.iput]
    exact .unchanged tidy _
  | some fd =>
    simp only
    split
    · rw [tidy.kept.iput]
      exact .unchanged tidy _
    refine ⟨⟨tidy.tree.congr rfl, ?_⟩, rfl, fun _ => rfl⟩
    intro other inode read noLinks
    refine referenced_set ?_ (tidy.kept other inode read noLinks)
    intro file get
    obtain ⟨bound, isNone, -⟩ := List.findIdx?_eq_some_iff_getElem.mp free
    rw [getElem?_eq_getElem bound, some.injEq] at get
    rw [get] at isNone
    contradiction

/-- A new file is made in a linked directory, and there are an entry of the file
table and a descriptor for it. -/
def OpenSafe (state : State) (path : Path) (omode : Nat) : Prop :=
  omode &&& oCreate ≠ 0 → ∀ dp dir name, CreatesAt state path dp dir name →
    0 < dir.nlink ∧ none ∈ state.ofile ∧ state.ftableFree ≠ 0

theorem sysOpen_completes (tidy : Tidy state) {omode : Nat} (safe : OpenSafe state path omode)
    (called : sysOpen state path omode = some (result, code)) : Completes state result code := by
  rw [sysOpen] at called
  split at called
  · rename_i creating
    obtain ⟨⟨made, found⟩, created, called⟩ := bind_eq_some_iff.mp called
    rw [← createNode_file] at created
    have createSafe : CreateSafe state path .file := fun dp dir name creates =>
      ⟨(safe creating dp dir name creates).1, nofun⟩
    obtain ⟨madeTidy, made_eq, outcome⟩ := createNode_tidy tidy createSafe created
    cases found with
    | none =>
      cases called
      rcases outcome with rfl | ⟨_, _, _, _, _, found_eq⟩
      · exact .unchanged tidy _
      · contradiction
    | some ip =>
      have opened := openInode_completes madeTidy ip omode
      rw [some.injEq] at called
      rw [called] at opened
      rcases outcome with rfl | ⟨dp, dir, name, ip', creates, -⟩
      · exact opened
      refine ⟨opened.tidy, ?_, ?_⟩
      · rw [opened.elsewhere, made_eq]
      -- With room for the new file the call does not fail.
      obtain ⟨-, descriptor, room⟩ := safe creating dp dir name creates
      rw [made_eq, openInode] at called
      cases free : state.ofile.findIdx? Option.isNone with
      | none =>
        rw [findIdx?_eq_none_iff] at free
        exact nomatch free none descriptor
      | some fd =>
        simp only [free, if_neg room, Prod.mk.injEq] at called
        omega
  · obtain ⟨found, named, called⟩ := bind_eq_some_iff.mp called
    cases found with
    | none =>
      cases called
      exact .unchanged tidy _
    | some ip =>
      obtain ⟨inode, -, called⟩ := bind_eq_some_iff.mp called
      split at called
      · rw [tidy.kept.iput] at called
        obtain ⟨rfl, rfl⟩ := called
        exact .unchanged tidy _
      · have opened := openInode_completes tidy ip omode
        rw [some.injEq] at called
        rwa [called] at opened

theorem sysClose_completes (tidy : Tidy state) (fd : Int) :
    Completes state (sysClose state fd).1 (sysClose state fd).2 := by
  rw [sysClose]
  cases opened : state.file? fd with
  | none => exact .unchanged tidy _
  | some file =>
    have closedTree : Tree { state with
        ofile := state.ofile.set fd.toNat none
        ftableFree := state.ftableFree + 1 } := tidy.tree.congr rfl
    simp only
    refine ⟨⟨closedTree.iput file.inum, orphansKept_iput ?_⟩, ?_, nofun⟩
    · intro other inode distinct read noLinks
      refine referenced_set ?_ (tidy.kept other inode read noLinks)
      intro closed get
      rw [file?] at opened
      split at opened
      · contradiction
      · rw [get] at opened
        cases opened
        exact distinct.symm
    · rw [iput_eq_with_inodes]

theorem sysChdir_completes (tidy : Tidy state)
    (called : sysChdir state path = some (result, code)) :
    Completes state result code := by
  obtain ⟨found, named, called⟩ := bind_eq_some_iff.mp called
  cases found with
  | none =>
    cases called
    exact .unchanged tidy _
  | some ip =>
    obtain ⟨inode, -, called⟩ := bind_eq_some_iff.mp called
    split at called
    · cases called
      have movedTree : Tree { state with cwd := ip } := tidy.tree.congr rfl
      refine ⟨⟨movedTree.iput state.cwd, orphansKept_iput ?_⟩, ?_, nofun⟩
      · intro other inode' distinct read noLinks
        have used := tidy.kept other inode' read noLinks
        rw [referenced, Bool.or_eq_true, beq_iff_eq] at used
        rw [referenced, Bool.or_eq_true]
        exact .inr (used.resolve_left distinct.symm)
      · rw [iput_eq_with_inodes]
    · rw [tidy.kept.iput] at called
      obtain ⟨rfl, rfl⟩ := called
      exact .unchanged tidy _

/-! ## Runs of calls by any processes -/

/-- The condition on a call: nothing is made in a directory that has been
removed, the count it raises has room, and a new file gets a descriptor. -/
def NameCall.Safe (state : State) : NameCall → Prop
  | .open path omode => OpenSafe state path omode
  | .mkdir path => CreateSafe state path .dir
  | .mknod path => CreateSafe state path .dev
  | .link old new => LinkSafe state old new
  | .unlink _ | .chdir _ | .close _ => True

theorem NameCall.run_completes (tidy : Tidy state) {call : NameCall} (safe : call.Safe state)
    (called : call.run state = some (result, code)) :
    Completes state result code := by
  cases call with
  | «open» path omode => exact sysOpen_completes tidy safe called
  | mkdir path => exact sysMake_completes tidy safe called
  | mknod path => exact sysMake_completes tidy safe called
  | link old new => exact sysLink_completes tidy safe called
  | unlink path => exact sysUnlink_completes tidy called
  | chdir path => exact sysChdir_completes tidy called
  | close fd =>
    have closed := sysClose_completes tidy fd
    rw [run, some.injEq] at called
    rwa [called] at closed

namespace System

/-- A file system whose image is well formed: every inode without links is in
use by a process. -/
structure WellFormed (system : System) : Prop where
  tree : Tree system.files
  kept : ∀ ip inode, system.files.inode? ip = some inode → inode.nlink = 0 →
    ∃ process ∈ system.procs, ip ∈ process.inums

/-- The condition on a call of a process. -/
def Meets (system : System) (event : Nat × NameCall) : Prop :=
  ∀ process, system.procs[event.1]? = some process →
    event.2.Safe (system.view event.1 process)

variable {system : System} {pid : Nat} {process : Process}

/-- A process sees an inode in use when any process uses it. -/
theorem referenced_view (running : system.procs[pid]? = some process) :
    (system.view pid process).referenced ip = true ↔
      ∃ process ∈ system.procs, ip ∈ process.inums := by
  have own : ip ∈ process.inums ↔ process.cwd = ip ∨
      (process.ofile.any fun file => file.any (·.inum == ip)) = true := by
    rw [Process.inums, mem_cons, mem_filterMap, List.any_eq_true, eq_comm]
    refine or_congr_right (exists_congr fun file => and_congr_right fun _ => ?_)
    cases file <;> simp
  have elsewhere : (system.view pid process).heldElsewhere.contains ip = true ↔
      ∃ other ∈ system.procs.eraseIdx pid, ip ∈ other.inums := by
    rw [contains_iff_mem, view, mem_flatMap]
  rw [referenced, held, Bool.or_eq_true, Bool.or_eq_true, elsewhere, beq_iff_eq]
  constructor
  · rintro (cwd | ⟨other, mem, uses⟩ | file)
    · exact ⟨process, mem_of_getElem? running, own.mpr (.inl cwd)⟩
    · exact ⟨other, mem_of_mem_eraseIdx mem, uses⟩
    · exact ⟨process, mem_of_getElem? running, own.mpr (.inr file)⟩
  · rintro ⟨other, mem, uses⟩
    obtain ⟨index, get⟩ := getElem?_of_mem mem
    by_cases same : index = pid
    · subst same
      obtain rfl : other = process := some.inj (get.symm.trans running)
      rcases own.mp uses with cwd | file
      · exact .inl cwd
      · exact .inr (.inr file)
    · exact .inr (.inl ⟨other, mem_eraseIdx_iff_getElem?.mpr ⟨index, same, get⟩, uses⟩)

theorem WellFormed.tidy (wf : system.WellFormed) (running : system.procs[pid]? = some process) :
    Tidy (system.view pid process) where
  tree := wf.tree.congr rfl
  kept := fun ip inode read noLinks =>
    (referenced_view running).mpr (wf.kept ip inode read noLinks)

/-- A process sees what it has stored. -/
theorem view_store (elsewhere : state.heldElsewhere = (system.view pid process).heldElsewhere) :
    (system.store pid state).view pid ⟨state.cwd, state.ofile⟩ = state := by
  obtain ⟨inodes, cwd, ofile, heldElsewhere, ftableFree⟩ := state
  obtain rfl : heldElsewhere = (system.view pid process).heldElsewhere := elsewhere
  rw [view, store]
  simp only [eraseIdx_set_eq]
  rfl

/-- A call that meets its condition keeps the image well formed, and leaves it
as it was when it fails. -/
theorem call_completes {system next : System} (wf : system.WellFormed) {call : NameCall}
    (meets : system.Meets (pid, call)) (called : system.call pid call = some (next, code)) :
    next.WellFormed ∧ (code = -1 → next.inodes = system.inodes) := by
  obtain ⟨process, running, ⟨state, code'⟩, ran, called⟩ := bind₂_eq_some_iff.mp called
  cases called
  have completes := call.run_completes (wf.tidy running) (meets process running) ran
  refine ⟨⟨completes.tidy.tree.congr rfl, ?_⟩, completes.failed⟩
  intro ip inode read noLinks
  have still : (system.store pid state).procs[pid]? = some ⟨state.cwd, state.ofile⟩ :=
    getElem?_set_self (List.getElem?_eq_some_iff.mp running).1
  rw [← referenced_view still, view_store completes.elsewhere]
  exact completes.tidy.kept ip inode read noLinks

end System

/-! ## The image at boot -/

/-- A root directory without other names, used by one process. -/
def booted : System where
  inodes := none :: some ⟨.dir, 1, [⟨1, dotName⟩, ⟨1, dotDotName⟩], []⟩ :: List.replicate 6 none
  procs := [⟨rootino, List.replicate 100 none⟩]
  ftableFree := 100

theorem inode?_booted (read : booted.files.inode? ip = some inode) :
    ip = 1 ∧ inode = ⟨.dir, 1, [⟨1, dotName⟩, ⟨1, dotDotName⟩], []⟩ := by
  match ip, read with
  | 1, read => exact ⟨rfl, (some.inj read).symm⟩
  | other + 2, read =>
    have slot : booted.files.inode? (other + 2) = (List.replicate 6 none)[other]?.join := rfl
    rw [slot, List.getElem?_replicate] at read
    split at read <;> contradiction

theorem links_booted (ip : Nat) : links booted.files ip = if ip = 1 then 1 else 0 := by
  have root : booted.files.inode? 1 = some (newDir 1 1) := rfl
  have only : links booted.files ip = linksIn 1 (booted.files.inode? 1) ip := by
    refine Finset.sum_eq_single 1 ?_ (fun missing => absurd (by decide) missing)
    intro other _ notRoot
    cases read : booted.files.inode? other with
    | none => rfl
    | some inode => exact absurd (inode?_booted read).1 notRoot
  rw [only, root, linksIn_of_dir rfl Int.one_pos, MakesDir.naming_newDir]

theorem names_booted {above : Nat} : ¬ Names booted.files above name ip := by
  rintro ⟨-, notDots, step⟩
  obtain ⟨inode, read, -, found⟩ := child_eq_some_iff.mp step
  obtain ⟨rfl, rfl⟩ := inode?_booted read
  have directory : Directory 1 (newDir 1 1) := MakesDir.directory_newDir Nat.one_ne_zero
  exact nomatch (directory.dirlookup_of_empty rfl notDots).symm.trans found

theorem booted_wellFormed : booted.WellFormed := by
  have rootLinked : LinkedDir booted.files rootino := ⟨_, rfl, rfl, Int.one_pos⟩
  refine ⟨⟨rfl, ?_, ?_, ?_, ?_, ⟨rootLinked, rfl⟩, ?_, ?_⟩, ?_⟩
  · intro dp dir read isDir
    obtain ⟨rfl, rfl⟩ := inode?_booted read
    exact MakesDir.directory_newDir Nat.one_ne_zero
  · intro dp dir read isDir noLinks
    obtain ⟨rfl, rfl⟩ := inode?_booted read
    rfl
  · intro ip nonzero
    rw [links_booted]
    cases read : booted.files.inode? ip with
    | none =>
      rw [if_neg]
      · rfl
      · rintro rfl
        contradiction
    | some inode =>
      obtain ⟨rfl, rfl⟩ := inode?_booted read
      rfl
  · intro ip inode read
    obtain ⟨rfl, rfl⟩ := inode?_booted read
    exact (by decide : (1 : Int) < 32768)
  · rintro dp ⟨dir, read, -⟩ notRoot
    exact absurd (inode?_booted read).1 notRoot
  · intro above name dp names
    exact absurd names names_booted
  · intro ip inode read noLinks
    obtain ⟨rfl, rfl⟩ := inode?_booted read
    contradiction

/-! ## Runs of any length -/

/-- Starting from a well-formed image, after any completed calls of any
processes that meet the condition, the link count of every allocated inode is
the number of entries that name it in linked directories, its own `.` not
counted; and a call that fails leaves all inodes as they were. -/
theorem link_counts_exact {start system : System} (wf : start.WellFormed)
    (reached : Run.Reached System.step System.Meets start system) :
    (∀ ip inode, system.files.inode? ip = some inode →
      inode.nlink = links system.files ip) ∧
    ∀ pid call next, system.Meets (pid, call) → system.call pid call = some (next, -1) →
      next.inodes = system.inodes := by
  have wfReached : system.WellFormed := by
    refine Run.Reached.invariant ?_ wf reached
    intro state event next wfState meets stepped
    obtain ⟨⟨next', code⟩, called, rfl⟩ := map_eq_some_iff.mp stepped
    exact (System.call_completes wfState meets called).1
  refine ⟨fun ip inode read => wfReached.tree.nlink_eq read, ?_⟩
  intro pid call next meets failed
  exact (System.call_completes wfReached meets failed).2 rfl

/-- After `mkdir` of a directory `d` in the root, both have their links. -/
theorem link_counts_exact_after_mkdir :
    ∃ system, Run.Reached System.step System.Meets booted system ∧
      links system.files 1 = 2 ∧ links system.files 2 = 1 ∧
      (∀ ip inode, system.files.inode? ip = some inode →
        inode.nlink = links system.files ip) := by
  have meets : booted.Meets (0, .mkdir [100]) := by
    rintro process running dp dir name ⟨parent_eq, readDir, -⟩
    obtain ⟨-, rfl⟩ := inode?_booted readDir
    exact ⟨Int.one_pos, fun _ => (by decide : (1 : Int) < 32767)⟩
  have reached := @Run.Reached.step _ _ System.step System.Meets booted booted _ _ .start meets rfl
  exact ⟨_, reached, by decide, by decide, (link_counts_exact booted_wellFormed reached).1⟩

/-- A file made in the working directory after that was removed has a link count
of one, and no linked directory names it. -/
theorem link_count_in_removed_directory :
    booted.WellFormed ∧ ∃ system,
      Run.run System.step booted [
        (0, .mkdir [100]),
        (0, .chdir [100]),
        (0, .unlink [46, 46, 47, 100]),
        (0, .open [120] (oCreate ||| oRdwr))] = some system ∧
      ∃ inode, system.files.inode? 3 = some inode ∧ inode.nlink = 1 ∧
        links system.files 3 = 0 :=
  ⟨booted_wellFormed, _, rfl, _, rfl, rfl, by decide⟩

end XEditor.Kernel
