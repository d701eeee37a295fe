import Mathlib.Algebra.Ring.Nat
import XEditor.Kernel.Path

/-!
# Inodes, directories and path lookup

The part of the xv6 file system that the system calls of the editor see: the
inode table, directory entries, path lookup and the references that keep an
unlinked inode alive.  Disk blocks and the log are left out, so the panics of a
full disk do not occur here.

The outer `none` of a result is a kernel panic (or a wait on a lock the caller
itself holds); the return value of the C function is inside.
-/

namespace XEditor.Kernel

open List Option

/-- The inode types of `stat.h`.  A free inode, of type 0, is a missing one. -/
inductive FileType where
  | dir
  | file
  | dev
  deriving DecidableEq, Repr

/-- Source `struct dirent`; an entry with inode number 0 is free. -/
structure Dirent where
  inum : Nat
  name : Name
  deriving DecidableEq, Repr

/-- An inode.  A directory has entries, any other inode has bytes. -/
structure Inode where
  type : FileType
  nlink : Int
  entries : List Dirent
  content : List UInt8
  deriving DecidableEq, Repr

/-- Source `struct file` for an inode. -/
structure OpenFile where
  inum : Nat
  off : Nat
  readable : Bool
  writable : Bool
  deriving DecidableEq, Repr

/-- The inode table, the editor's working directory and descriptors, the inodes
other processes hold, and the number of free entries of the file table. -/
structure State where
  inodes : List (Option Inode)
  cwd : Nat
  ofile : List (Option OpenFile)
  heldElsewhere : List Nat
  ftableFree : Nat
  deriving DecidableEq, Repr

/-- Source `ROOTINO`. -/
def rootino : Nat := 1

/-- Entries of a directory of `MAXFILE` blocks. -/
def maxEntries : Nat := 252 * 512 / 16

/-- The value a `short` keeps. -/
def toShort (n : Int) : Int :=
  n.bmod (2 ^ 16)

theorem toShort_of_mem {n : Int} (low : -32768 ≤ n) (high : n < 32768) : toShort n = n := by
  apply Int.bmod_eq_of_le
  · simpa using low
  · simpa using high

theorem toShort_succ_pred {n : Int} (low : -32768 ≤ n) (high : n < 32768) :
    toShort (toShort (n + 1) - 1) = n := by
  rw [toShort, toShort, Int.bmod_sub_bmod, Int.add_sub_cancel]
  exact toShort_of_mem low high

variable {state : State} {inum : Nat} {inode : Inode} {entries : List Dirent} {name : Name}
  {path : Path}

namespace State

/-- The inode `ilock` reads; it panics on a free one. -/
def inode? (state : State) (inum : Nat) : Option Inode :=
  state.inodes[inum]?.join

/-- Store an inode. -/
def setInode (state : State) (inum : Nat) (inode : Inode) : State :=
  { state with inodes := state.inodes.set inum (some inode) }

/-- Whether an inode is open in the editor or in use by another process. -/
def held (state : State) (inum : Nat) : Bool :=
  state.heldElsewhere.contains inum || state.ofile.any fun file => file.any (·.inum == inum)

/-- Whether an inode is in use at all. -/
def referenced (state : State) (inum : Nat) : Bool :=
  state.cwd == inum || state.held inum

/-- Source `iput` by a caller whose own reference is not counted: an inode
without links and without other references is freed. -/
def iput (state : State) (inum : Nat) : State :=
  match state.inode? inum with
  | none => state
  | some inode =>
    if inode.nlink = 0 ∧ state.referenced inum = false then
      { state with inodes := state.inodes.set inum none }
    else state

theorem inode?_lt (read : state.inode? inum = some inode) : inum < state.inodes.length := by
  by_contra outside
  rw [inode?, getElem?_eq_none (by omega)] at read
  contradiction

theorem inode?_setInode_of_lt (bound : inum < state.inodes.length) (inode : Inode) :
    (state.setInode inum inode).inode? inum = some inode := by
  rw [inode?, setInode, getElem?_set_self bound]
  rfl

theorem inode?_setInode_self {old : Inode} (read : state.inode? inum = some old) (inode : Inode) :
    (state.setInode inum inode).inode? inum = some inode :=
  inode?_setInode_of_lt (inode?_lt read) inode

theorem inode?_setInode_ne {inum other : Nat} (distinct : inum ≠ other) (inode : Inode) :
    (state.setInode inum inode).inode? other = state.inode? other := by
  rw [inode?, setInode, getElem?_set_ne distinct, inode?]

theorem setInode_setInode (state : State) (inum : Nat) (first second : Inode) :
    (state.setInode inum first).setInode inum second = state.setInode inum second := by
  rw [setInode, setInode, set_set, setInode]

theorem setInode_self (read : state.inode? inum = some inode) :
    state.setInode inum inode = state := by
  have slot : state.inodes[inum]? = some (some inode) := join_eq_some_iff.mp read
  obtain ⟨bound, inode_eq⟩ := List.getElem?_eq_some_iff.mp slot
  rw [setInode, ← inode_eq, set_getElem_self]

end State

/-! ## Directories -/

/-- Whether an entry is in use under a name. -/
def Dirent.names (entry : Dirent) (name : Name) : Bool :=
  entry.inum != 0 && entry.name == name

/-- The slot at which `dirlookup` finds a name. -/
def slotOf (entries : List Dirent) (name : Name) : Option Nat :=
  entries.findIdx? (·.names name)

/-- Source `dirlookup`. -/
def dirlookup (entries : List Dirent) (name : Name) : Option Nat :=
  (entries.find? (·.names name)).map Dirent.inum

/-- The slot `dirlink` writes to: the first free one, or a new one. -/
def freeSlot (entries : List Dirent) : Nat :=
  (entries.findIdx? (·.inum == 0)).getD entries.length

/-- Write an entry to an existing slot or to the end. -/
def writeEntry (entries : List Dirent) (slot : Nat) (entry : Dirent) : List Dirent :=
  if slot < entries.length then entries.set slot entry else entries ++ [entry]

/-- Source `dirlink`.  The return value -1 is the inner `none`; a directory that
has reached the size limit panics. -/
def dirlink (entries : List Dirent) (name : Name) (inum : Nat) :
    Option (Option (List Dirent)) :=
  if (dirlookup entries name).isSome then some none
  else if freeSlot entries < maxEntries then
    some (some (writeEntry entries (freeSlot entries) ⟨inum, name⟩))
  else none

/-- Source `isdirempty`. -/
def isdirempty (entries : List Dirent) : Bool :=
  (entries.drop 2).all (·.inum == 0)

/-- What `sys_unlink` overwrites an entry with. -/
def freeEntry : Dirent where
  inum := 0
  name := []

/-- How many entries are in use under a name. -/
def nameCount (entries : List Dirent) (name : Name) : Nat :=
  entries.countP (·.names name)

/-- No name is in use twice. -/
def UniqueNames (entries : List Dirent) : Prop :=
  ∀ name, nameCount entries name ≤ 1

theorem nameCount_append_cons (before : List Dirent) (entry : Dirent) (after : List Dirent)
    (name : Name) :
    nameCount (before ++ entry :: after) name =
      nameCount before name + nameCount after name + if entry.names name then 1 else 0 := by
  rw [nameCount, countP_append, countP_cons, ← Nat.add_assoc]
  rfl

theorem freeEntry_names (name : Name) : freeEntry.names name = false :=
  rfl

open Dirent

theorem dirlookup_ne_zero (found : dirlookup entries name = some inum) : inum ≠ 0 := by
  obtain ⟨entry, entry_eq, rfl⟩ := map_eq_some_iff.mp found
  have named := find?_some entry_eq
  rw [names, Bool.and_eq_true, bne_iff_ne] at named
  exact named.1

theorem dirlookup_eq_none_iff : dirlookup entries name = none ↔ nameCount entries name = 0 := by
  rw [dirlookup, map_eq_none_iff, find?_eq_none, nameCount, countP_eq_zero]

/-- Lookup goes through the entries from the front. -/
theorem dirlookup_append_cons (before : List Dirent) (entry : Dirent) (after : List Dirent)
    (name : Name) :
    dirlookup (before ++ entry :: after) name =
      (dirlookup before name).or
        (if entry.names name then some entry.inum else dirlookup after name) := by
  rw [dirlookup, List.find?_append, find?_cons, dirlookup, dirlookup]
  cases before.find? (·.names name) <;> cases entry.names name <;> rfl

variable {slot target fuel parent : Nat}

/-- The slot of a name splits the entries. -/
theorem exists_split_of_slotOf (found : slotOf entries name = some slot) :
    ∃ before entry after, entries = before ++ entry :: after ∧ before.length = slot ∧
      entry.names name = true := by
  obtain ⟨bound, named, -⟩ := List.findIdx?_eq_some_iff_getElem.mp found
  refine ⟨entries.take slot, entries.get ⟨slot, bound⟩, entries.drop (slot + 1), ?_, ?_, named⟩
  · exact (take_append_drop slot entries).symm.trans (congrArg _ (drop_eq_getElem_cons bound))
  · rw [length_take]
    omega

theorem set_length_append (before : List Dirent) (entry new : Dirent) (after : List Dirent) :
    (before ++ entry :: after).set before.length new = before ++ new :: after := by
  rw [set_append_right _ _ (Nat.le_refl _), Nat.sub_self, set_cons_zero]

theorem names_iff_eq {entry : Dirent} {name other : Name} (named : entry.names name = true) :
    entry.names other = true ↔ other = name := by
  rw [names, Bool.and_eq_true, beq_iff_eq] at named
  rw [names, named.1, Bool.true_and, beq_iff_eq, named.2]
  exact eq_comm

/-- Freeing the slot of a name removes just that name. -/
theorem dirlookup_remove (unique : UniqueNames entries) (found : slotOf entries name = some slot)
    (other : Name) :
    dirlookup (entries.set slot freeEntry) other =
      if other = name then none else dirlookup entries other := by
  obtain ⟨before, entry, after, rfl, rfl, named⟩ := exists_split_of_slotOf found
  rw [set_length_append, dirlookup_append_cons, dirlookup_append_cons, freeEntry_names,
    if_neg Bool.false_ne_true]
  by_cases same : other = name
  · have count := unique name
    rw [nameCount_append_cons, if_pos named] at count
    have beforeNone : dirlookup before name = none := dirlookup_eq_none_iff.mpr (by omega)
    have afterNone : dirlookup after name = none := dirlookup_eq_none_iff.mpr (by omega)
    rw [if_pos same, same, beforeNone, afterNone]
    rfl
  · rw [if_neg same, if_neg (fun otherNamed => same ((names_iff_eq named).mp otherNamed))]

/-- The free slot of a directory is a free entry or the end. -/
theorem writeEntry_freeSlot (entries : List Dirent) (new : Dirent) :
    (∃ before entry after, entries = before ++ entry :: after ∧ entry.inum = 0 ∧
      writeEntry entries (freeSlot entries) new = before ++ new :: after) ∨
    writeEntry entries (freeSlot entries) new = entries ++ [new] := by
  cases free : entries.findIdx? (·.inum == 0) with
  | none =>
    right
    rw [freeSlot, free, getD_none, writeEntry, if_neg (Nat.lt_irrefl _)]
  | some slot =>
    left
    obtain ⟨bound, isFree, -⟩ := List.findIdx?_eq_some_iff_getElem.mp free
    have split : entries =
        entries.take slot ++ entries.get ⟨slot, bound⟩ :: entries.drop (slot + 1) :=
      (take_append_drop slot entries).symm.trans
        (congrArg _ (drop_eq_getElem_cons bound))
    refine ⟨entries.take slot, entries.get ⟨slot, bound⟩, entries.drop (slot + 1), split,
      beq_iff_eq.mp isFree, ?_⟩
    rw [freeSlot, free, getD_some, writeEntry, if_pos bound,
      set_eq_take_append_cons_drop, if_pos bound]

theorem names_eq_false_of_free {entry : Dirent} (free : entry.inum = 0) (name : Name) :
    entry.names name = false := by
  rw [names, free]
  rfl

/-- A new entry adds just its name. -/
theorem dirlookup_writeEntry (fresh : dirlookup entries name = none) (nonzero : inum ≠ 0)
    (other : Name) :
    dirlookup (writeEntry entries (freeSlot entries) ⟨inum, name⟩) other =
      if other = name then some inum else dirlookup entries other := by
  have named : names ⟨inum, name⟩ name = true := by
    rw [names, Bool.and_eq_true]
    exact ⟨bne_iff_ne.mpr nonzero, beq_self_eq_true _⟩
  have lookup (before after : List Dirent) (freshBefore : dirlookup before name = none) :
      dirlookup (before ++ ⟨inum, name⟩ :: after) other =
        if other = name then some inum
        else (dirlookup before other).or (dirlookup after other) := by
    rw [dirlookup_append_cons]
    by_cases same : other = name
    · rw [if_pos same, same, freshBefore, if_pos named]
      rfl
    · rw [if_neg same, if_neg (fun otherNamed => same ((names_iff_eq named).mp otherNamed))]
  rcases writeEntry_freeSlot entries ⟨inum, name⟩ with
    ⟨before, entry, after, rfl, free, written⟩ | written
  · rw [dirlookup_append_cons, names_eq_false_of_free free, if_neg Bool.false_ne_true,
      or_eq_none_iff] at fresh
    rw [written, lookup before after fresh.1, dirlookup_append_cons,
      names_eq_false_of_free free, if_neg Bool.false_ne_true]
  · rw [written, lookup entries [] fresh]
    cases dirlookup entries other <;> rfl

theorem nameCount_writeEntry (entries : List Dirent) (new : Dirent) (name : Name) :
    nameCount (writeEntry entries (freeSlot entries) new) name =
      nameCount entries name + if new.names name then 1 else 0 := by
  rcases writeEntry_freeSlot entries new with
    ⟨before, entry, after, rfl, free, written⟩ | written
  · rw [written, nameCount_append_cons, nameCount_append_cons, names_eq_false_of_free free,
      if_neg Bool.false_ne_true]
    rfl
  · rw [written, nameCount_append_cons]
    rfl

/-- A new entry under a fresh name keeps names unique. -/
theorem UniqueNames.writeEntry (inum : Nat) (unique : UniqueNames entries)
    (fresh : dirlookup entries name = none) :
    UniqueNames (writeEntry entries (freeSlot entries) ⟨inum, name⟩) := by
  intro other
  have count := unique other
  rw [nameCount_writeEntry]
  split
  · rename_i named
    have same : other = name := by
      rw [names, Bool.and_eq_true, beq_iff_eq] at named
      exact named.2.symm
    rw [same, dirlookup_eq_none_iff.mp fresh]
  · exact count

/-! ## Path lookup -/

/-- The loop of `namex`.  With `nameiparent` it stops one element early and
gives the last element too. -/
def namexLoop (state : State) (nameiparent : Bool) :
    (fuel : Nat) → (inum : Nat) → (path : Path) → (name : Name) →
      Option (Option (Nat × Name))
  | 0, _, _, _ => some none
  | fuel + 1, inum, path, name =>
    match skipelem path with
    | none => some (if nameiparent then none else some (inum, name))
    | some (name, path) => do
      let inode ← state.inode? inum
      if inode.type ≠ .dir then some none
      else if nameiparent ∧ path = [] then some (some (inum, name))
      else
        match dirlookup inode.entries name with
        | none => some none
        | some next => namexLoop state nameiparent fuel next path name

/-- The directory a lookup starts in. -/
def startInum (state : State) (path : Path) : Nat :=
  if path.head? = some slash then rootino else state.cwd

/-- Source `namex`.  Every iteration but the last consumes a byte of the path. -/
def namex (state : State) (path : Path) (nameiparent : Bool) :
    Option (Option (Nat × Name)) :=
  namexLoop state nameiparent (path.length + 1) (startInum state path) path []

/-- Source `namei`. -/
def namei (state : State) (path : Path) : Option (Option Nat) :=
  (namex state path false).map (Option.map Prod.fst)

/-- Source `nameiparent`. -/
def nameiparent (state : State) (path : Path) : Option (Option (Nat × Name)) :=
  namex state path true

/-! ## Lookup as a walk along directory entries -/

/-- The inode a directory has under a name. -/
def child (state : State) (inum : Nat) (name : Name) : Option Nat :=
  (state.inode? inum).bind fun inode =>
    if inode.type = .dir then dirlookup inode.entries name else none

/-- Follow a list of names. -/
def resolve (state : State) (inum : Nat) (names : List Name) : Option Nat :=
  names.foldlM (child state) inum

/-- An inode is a directory. -/
def IsDir (state : State) (inum : Nat) : Prop :=
  ∃ inode, state.inode? inum = some inode ∧ inode.type = .dir

section

variable (state : State) (inum : Nat)

@[simp]
theorem resolve_nil : resolve state inum [] = some inum :=
  rfl

theorem resolve_cons (name : Name) (names : List Name) :
    resolve state inum (name :: names) =
      (child state inum name).bind fun next => resolve state next names :=
  rfl

theorem resolve_concat (names : List Name) (name : Name) :
    resolve state inum (names ++ [name]) =
      (resolve state inum names).bind fun next => child state next name := by
  rw [resolve, foldlM_append]
  simp only [foldlM_cons, foldlM_nil, bind_pure]
  rfl

end

theorem child_eq_some_iff {inum : Nat} :
    child state inum name = some target ↔
      ∃ inode, state.inode? inum = some inode ∧ inode.type = .dir ∧
        dirlookup inode.entries name = some target := by
  rw [child, bind_eq_some_iff]
  simp only [ite_none_right_eq_some]

theorem isDir_of_child {inum : Nat} (step : child state inum name = some target) :
    IsDir state inum := by
  obtain ⟨inode, read, isDir, -⟩ := child_eq_some_iff.mp step
  exact ⟨inode, read, isDir⟩

theorem child_of_inode (read : state.inode? inum = some inode) (isDir : inode.type = .dir)
    (name : Name) :
    child state inum name = dirlookup inode.entries name := by
  rw [child, read, bind_some, if_pos isDir]

/-- `namei` succeeds exactly when the walk along the path elements does. -/
theorem namexLoop_false {inum : Nat} (name : Name) (enough : path.length < fuel) :
    (namexLoop state false fuel inum path name).map (Option.map Prod.fst) =
        some (some target) ↔
      resolve state inum (elements path) = some target := by
  induction fuel generalizing inum path name with
  | zero => omega
  | succ fuel ih =>
    rw [namexLoop]
    cases skipped : skipelem path with
    | none => simp [elements_eq_nil skipped]
    | some next =>
      obtain ⟨first, rest⟩ := next
      have shorter := skipelem_length skipped
      rw [elements_eq_cons skipped, resolve_cons]
      cases read : state.inode? inum with
      | none => simp [child, read]
      | some inode =>
        simp only [bind_eq_bind, bind_some, Bool.false_eq_true, false_and, if_false]
        by_cases isDir : inode.type = .dir
        · rw [child_of_inode read isDir, if_neg (not_not_intro isDir)]
          cases dirlookup inode.entries first with
          | none => simp
          | some next => exact ih first (by omega)
        · rw [if_pos isDir, child, read, bind_some, if_neg isDir]
          simp

theorem namei_eq_some_iff :
    namei state path = some (some target) ↔
      resolve state (startInum state path) (elements path) = some target :=
  namexLoop_false [] (Nat.lt_succ_self _)

/-- `nameiparent` succeeds exactly when the walk along all path elements but the
last one ends in a directory. -/
theorem namexLoop_true {inum : Nat} {last : Name} (name : Name) (enough : path.length < fuel) :
    namexLoop state true fuel inum path name = some (some (parent, last)) ↔
      ∃ names, elements path = names ++ [last] ∧ resolve state inum names = some parent ∧
        IsDir state parent := by
  induction fuel generalizing inum path name with
  | zero => omega
  | succ fuel ih =>
    rw [namexLoop]
    cases skipped : skipelem path with
    | none => simp [elements_eq_nil skipped]
    | some next =>
      obtain ⟨first, rest⟩ := next
      have shorter := skipelem_length skipped
      rw [elements_eq_cons skipped]
      simp only [bind_eq_bind, true_and]
      constructor
      · intro found
        obtain ⟨inode, read, found⟩ := bind_eq_some_iff.mp found
        by_cases isDir : inode.type = .dir
        · rw [if_neg (not_not_intro isDir)] at found
          by_cases atLast : rest = []
          · rw [if_pos atLast, some.injEq, some.injEq, Prod.mk.injEq] at found
            obtain ⟨rfl, rfl⟩ := found
            refine ⟨[], ?_, rfl, inode, read, isDir⟩
            rw [(elements_rest_eq_nil_iff skipped).mpr atLast]
            rfl
          · rw [if_neg atLast] at found
            cases next : dirlookup inode.entries first with
            | none => simp [next] at found
            | some target =>
              rw [next] at found
              obtain ⟨names, names_eq, walked, parentDir⟩ := (ih first (by omega)).mp found
              refine ⟨first :: names, by rw [names_eq]; rfl, ?_, parentDir⟩
              rw [resolve_cons, child_of_inode read isDir, next]
              exact walked
        · rw [if_pos isDir] at found
          simp at found
      · rintro ⟨names, names_eq, walked, parentDir⟩
        cases names with
        | nil =>
          rw [nil_append, cons.injEq] at names_eq
          obtain ⟨rfl, noRest⟩ := names_eq
          obtain rfl : inum = parent := some.inj walked
          obtain ⟨inode, read, isDir⟩ := parentDir
          rw [read, bind_some, if_neg (not_not_intro isDir),
            if_pos ((elements_rest_eq_nil_iff skipped).mp noRest)]
        | cons head names =>
          rw [cons_append, cons.injEq] at names_eq
          obtain ⟨rfl, names_eq⟩ := names_eq
          rw [resolve_cons] at walked
          obtain ⟨target, step, walked⟩ := bind_eq_some_iff.mp walked
          obtain ⟨inode, read, isDir, next⟩ := child_eq_some_iff.mp step
          have notLast : ¬ rest = [] := by
            intro atLast
            rw [(elements_rest_eq_nil_iff skipped).mpr atLast] at names_eq
            exact absurd names_eq (by simp)
          rw [read, bind_some, if_neg (not_not_intro isDir), if_neg notLast, next]
          exact (ih first (by omega)).mpr ⟨names, names_eq, walked, parentDir⟩

theorem nameiparent_eq_some_iff {last : Name} :
    nameiparent state path = some (some (parent, last)) ↔
      ∃ names, elements path = names ++ [last] ∧
        resolve state (startInum state path) names = some parent ∧ IsDir state parent :=
  namexLoop_true [] (Nat.lt_succ_self _)

end XEditor.Kernel
