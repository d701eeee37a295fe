import Mathlib.Algebra.BigOperators.Group.Finset.Piecewise
import Mathlib.Algebra.Order.BigOperators.Group.Finset
import XEditor.Kernel.Processes

/-!
# The tree of linked directories

The links of an inode are the entries that name it in directories that are
themselves still linked; a directory's own `.` is not counted.  In a well-formed
image the linked directories form a tree and the link count of every inode is
its number of links.  Entering a name in a linked directory, making a directory
there, removing a name and dropping a reference all keep such a tree.
-/

namespace XEditor.Kernel

open List Option State

/-! ## Entries that name an inode -/

/-- Whether an entry of a directory is a link to an inode. -/
def Dirent.links (entry : Dirent) (dp ip : Nat) : Bool :=
  entry.inum == ip && !(entry.name == dotName && ip == dp)

/-- The links to an inode among the entries of a directory. -/
def naming (dp : Nat) (entries : List Dirent) (ip : Nat) : Nat :=
  entries.countP (·.links dp ip)

theorem naming_append_cons (dp : Nat) (before : List Dirent) (entry : Dirent)
    (after : List Dirent) (ip : Nat) :
    naming dp (before ++ entry :: after) ip =
      naming dp before ip + naming dp after ip + if entry.links dp ip then 1 else 0 := by
  rw [naming, countP_append, countP_cons, ← Nat.add_assoc]
  rfl

variable {entry : Dirent} {ip dp other target : Nat} {name : Name} {entries : List Dirent}
  {inode dir : Inode} {state : State}

theorem links_eq_false_of_free (free : entry.inum = 0) (dp : Nat) (nonzero : ip ≠ 0) :
    entry.links dp ip = false := by
  rw [Dirent.links, free, beq_eq_false_iff_ne.mpr nonzero.symm]
  rfl

theorem links_of_ne_dot (notDot : name ≠ dotName) (inum dp ip : Nat) :
    Dirent.links ⟨inum, name⟩ dp ip = true ↔ ip = inum := by
  rw [Dirent.links, beq_eq_false_iff_ne.mpr notDot, Bool.false_and, Bool.not_false, Bool.and_true,
    beq_iff_eq]
  exact eq_comm

/-- A new entry is one more link to its inode. -/
theorem naming_writeEntry (notDot : name ≠ dotName) (dp : Nat) (entries : List Dirent) (inum : Nat)
    (nonzero : ip ≠ 0) :
    naming dp (writeEntry entries (freeSlot entries) ⟨inum, name⟩) ip =
      naming dp entries ip + if ip = inum then 1 else 0 := by
  have new := links_of_ne_dot notDot inum dp ip
  rcases writeEntry_freeSlot entries ⟨inum, name⟩ with
    ⟨before, entry, after, rfl, free, written⟩ | written
  · rw [written, naming_append_cons, naming_append_cons, links_eq_false_of_free free dp nonzero]
    simp only [new, Bool.false_eq_true, if_false, Nat.add_zero]
  · rw [written, naming_append_cons]
    simp only [new]
    rfl

/-- The entry in the slot of a name is the one a lookup finds. -/
theorem exists_split_of_dirlookup (unique : UniqueNames entries) {slot ip : Nat}
    (slot_eq : slotOf entries name = some slot) (found : dirlookup entries name = some ip) :
    ∃ before after, entries = before ++ ⟨ip, name⟩ :: after ∧ before.length = slot := by
  obtain ⟨before, ⟨inum, named⟩, after, rfl, length_eq, names⟩ := exists_split_of_slotOf slot_eq
  have count := unique name
  rw [nameCount_append_cons, if_pos names] at count
  have beforeNone : dirlookup before name = none := dirlookup_eq_none_iff.mpr (by omega)
  rw [dirlookup_append_cons, beforeNone, if_pos names, none_or, some.injEq] at found
  rw [Dirent.names, Bool.and_eq_true, beq_iff_eq] at names
  have entry_eq : (⟨inum, named⟩ : Dirent) = ⟨ip, name⟩ := by
    rw [← found, ← names.2]
  exact ⟨before, after, by rw [entry_eq], length_eq⟩

variable {inum above : Nat}

/-- A removed entry is one link less to its inode. -/
theorem naming_remove (unique : UniqueNames entries) (notDot : name ≠ dotName) {slot : Nat}
    (slot_eq : slotOf entries name = some slot) (found : dirlookup entries name = some inum)
    (dp : Nat) (nonzero : ip ≠ 0) :
    naming dp entries ip =
      naming dp (entries.set slot freeEntry) ip + if ip = inum then 1 else 0 := by
  obtain ⟨before, after, rfl, rfl⟩ := exists_split_of_dirlookup unique slot_eq found
  have freed : freeEntry.links dp ip = false := links_eq_false_of_free rfl dp nonzero
  rw [set_length_append, naming_append_cons, naming_append_cons, freed]
  simp only [links_of_ne_dot notDot, Bool.false_eq_true, if_false, Nat.add_zero]

/-! ## Links of an inode -/

/-- The links to an inode that a directory contributes: none unless it is linked
itself. -/
def linksIn (dp : Nat) (slot : Option Inode) (ip : Nat) : Nat :=
  match slot with
  | none => 0
  | some dir => if dir.type = .dir ∧ 0 < dir.nlink then naming dp dir.entries ip else 0

/-- The links to an inode. -/
def links (state : State) (ip : Nat) : Nat :=
  ∑ dp ∈ Finset.range state.inodes.length, linksIn dp (state.inode? dp) ip

/-- The link count of an inode; a free one has none. -/
def nlinkOf (slot : Option Inode) : Int :=
  match slot with
  | none => 0
  | some inode => inode.nlink

theorem linksIn_of_not_dir (notDir : inode.type ≠ .dir) (dp ip : Nat) :
    linksIn dp (some inode) ip = 0 :=
  if_neg fun linkedDir => notDir linkedDir.1

theorem linksIn_of_dir (isDir : dir.type = .dir) (linked : 0 < dir.nlink) (dp ip : Nat) :
    linksIn dp (some dir) ip = naming dp dir.entries ip :=
  if_pos ⟨isDir, linked⟩

theorem linksIn_of_unlinked (unlinked : inode.nlink = 0) (dp ip : Nat) :
    linksIn dp (some inode) ip = 0 :=
  if_neg fun linkedDir => by
    rw [unlinked] at linkedDir
    exact absurd linkedDir.2 (Int.lt_irrefl 0)

/-- Put an inode, or nothing, in a slot of the inode table. -/
def State.put (state : State) (inum : Nat) (slot : Option Inode) : State :=
  { state with inodes := state.inodes.set inum slot }

theorem State.inode?_put_self (bound : inum < state.inodes.length) (slot : Option Inode) :
    (state.put inum slot).inode? inum = slot := by
  rw [inode?, put, getElem?_set_self bound]
  rfl

theorem State.inode?_put_ne {other : Nat} (distinct : inum ≠ other) (slot : Option Inode) :
    (state.put inum slot).inode? other = state.inode? other := by
  rw [inode?, put, getElem?_set_ne distinct, inode?]

/-- A changed inode changes what it contributes. -/
theorem links_put (bound : dp < state.inodes.length) (slot : Option Inode) (ip : Nat) :
    links (state.put dp slot) ip + linksIn dp (state.inode? dp) ip =
      links state ip + linksIn dp slot ip := by
  have mem : dp ∈ Finset.range state.inodes.length := Finset.mem_range.mpr bound
  have length_eq : (state.put dp slot).inodes.length = state.inodes.length := length_set
  have others : ∑ other ∈ (Finset.range state.inodes.length).erase dp,
        linksIn other ((state.put dp slot).inode? other) ip =
      ∑ other ∈ (Finset.range state.inodes.length).erase dp,
        linksIn other (state.inode? other) ip := by
    apply Finset.sum_congr rfl
    intro other memOther
    rw [State.inode?_put_ne (Finset.ne_of_mem_erase memOther).symm]
  rw [links, links, length_eq, ← Finset.add_sum_erase _ _ mem, ← Finset.add_sum_erase _ _ mem,
    others, State.inode?_put_self bound]
  omega

section

variable {first second : Nat} {firstNew secondNew : Inode}
  (firstBound : first < state.inodes.length) (secondBound : second < state.inodes.length)

include firstBound secondBound

/-- Two inodes are stored, and the others stay. -/
theorem inode?_both_cases
    (read : ((state.setInode first firstNew).setInode second secondNew).inode? other = some inode) :
    (other = second ∧ inode = secondNew) ∨ (other = first ∧ inode = firstNew) ∨
      state.inode? other = some inode := by
  by_cases atSecond : second = other
  · subst atSecond
    rw [inode?_setInode_of_lt (by rwa [setInode, length_set]), some.injEq] at read
    exact .inl ⟨rfl, read.symm⟩
  · rw [inode?_setInode_ne atSecond] at read
    by_cases atFirst : first = other
    · subst atFirst
      rw [inode?_setInode_of_lt firstBound, some.injEq] at read
      exact .inr (.inl ⟨rfl, read.symm⟩)
    · rw [inode?_setInode_ne atFirst] at read
      exact .inr (.inr read)

theorem links_both (distinct : first ≠ second) (target : Nat) :
    links ((state.setInode first firstNew).setInode second secondNew) target +
        linksIn first (state.inode? first) target + linksIn second (state.inode? second) target =
      links state target + linksIn first (some firstNew) target +
        linksIn second (some secondNew) target := by
  have stored : links (state.setInode first firstNew) target +
        linksIn first (state.inode? first) target =
      links state target + linksIn first (some firstNew) target :=
    links_put firstBound _ target
  have written : links ((state.setInode first firstNew).setInode second secondNew) target +
        linksIn second ((state.setInode first firstNew).inode? second) target =
      links (state.setInode first firstNew) target + linksIn second (some secondNew) target :=
    links_put (by rwa [setInode, length_set]) _ target
  rw [inode?_setInode_ne distinct] at written
  omega

end

/-- Without a directory the links lack those that it contributes. -/
theorem links_put_none (state : State) (dp ip : Nat) :
    links (state.put dp none) ip + linksIn dp (state.inode? dp) ip = links state ip := by
  by_cases bound : dp < state.inodes.length
  · exact links_put bound none ip
  · rw [put, set_eq_of_length_le (by omega), inode?, getElem?_eq_none (by omega)]
    rfl

theorem linksIn_le_links (state : State) (dp ip : Nat) :
    linksIn dp (state.inode? dp) ip ≤ links state ip := by
  have without := links_put_none state dp ip
  omega

/-- Two linked directories contribute to the links. -/
theorem linksIn_add_le_links (state : State) {first second : Nat} (distinct : first ≠ second)
    (ip : Nat) :
    linksIn first (state.inode? first) ip + linksIn second (state.inode? second) ip ≤
      links state ip := by
  have without := links_put_none state first ip
  have rest := linksIn_le_links (state.put first none) second ip
  rw [inode?_put_ne distinct] at rest
  omega

/-! ## The tree of linked directories -/

/-- A directory with its first two entries in place. -/
structure Directory (dp : Nat) (dir : Inode) : Prop where
  unique : UniqueNames dir.entries
  dots : ∃ parent rest, parent ≠ 0 ∧
    dir.entries = ⟨dp, dotName⟩ :: ⟨parent, dotDotName⟩ :: rest

/-- A directory that still has a link. -/
def LinkedDir (state : State) (dp : Nat) : Prop :=
  ∃ dir, state.inode? dp = some dir ∧ dir.type = .dir ∧ 0 < dir.nlink

/-- A linked directory has an inode under a name of its own. -/
structure Names (state : State) (dp : Nat) (name : Name) (ip : Nat) : Prop where
  linked : LinkedDir state dp
  notDots : ¬ (name = dotName ∨ name = dotDotName)
  step : child state dp name = some ip

/-- The linked directories form a tree, whose edges are named by entries of the
parent and by `..` of the child, and every link count is the number of links. -/
structure Tree (state : State) : Prop where
  zero : state.inode? 0 = none
  directory : ∀ {dp dir}, state.inode? dp = some dir → dir.type = .dir → Directory dp dir
  emptied : ∀ {dp dir}, state.inode? dp = some dir → dir.type = .dir → dir.nlink = 0 →
    isdirempty dir.entries = true
  counted : ∀ ip, ip ≠ 0 → nlinkOf (state.inode? ip) = links state ip
  short : ∀ {ip inode}, state.inode? ip = some inode → inode.nlink < 32768
  root : LinkedDir state rootino ∧ child state rootino dotDotName = some rootino
  parent : ∀ {dp}, LinkedDir state dp → dp ≠ rootino → ∃ above name,
    child state dp dotDotName = some above ∧ Names state above name dp
  single : ∀ {above name dp}, Names state above name dp → IsDir state dp →
    dp ≠ rootino ∧ child state dp dotDotName = some above ∧
      ∀ other, Names state above other dp → other = name

theorem writeEntry_cons (inUse : entry.inum ≠ 0) (entries : List Dirent) (new : Dirent) :
    writeEntry (entry :: entries) (freeSlot (entry :: entries)) new =
      entry :: writeEntry entries (freeSlot entries) new := by
  have slot_eq : freeSlot (entry :: entries) = freeSlot entries + 1 := by
    rw [freeSlot, freeSlot, findIdx?_cons, beq_eq_false_iff_ne.mpr inUse]
    cases entries.findIdx? (·.inum == 0) <;> rfl
  rw [slot_eq, writeEntry, writeEntry, length_cons]
  simp only [Nat.add_lt_add_iff_right]
  split <;> rfl

theorem UniqueNames.remove (unique : UniqueNames entries) {slot : Nat}
    (slot_eq : slotOf entries name = some slot) :
    UniqueNames (entries.set slot freeEntry) := by
  intro other
  have count := unique other
  obtain ⟨before, entry, after, rfl, rfl, -⟩ := exists_split_of_slotOf slot_eq
  rw [nameCount_append_cons] at count
  rw [set_length_append, nameCount_append_cons, freeEntry_names, if_neg Bool.false_ne_true]
  omega

namespace Directory

variable (directory : Directory dp dir)

include directory

theorem dirlookup_dot (nonzero : dp ≠ 0) : dirlookup dir.entries dotName = some dp := by
  obtain ⟨parent, rest, -, entries_eq⟩ := directory.dots
  have named : Dirent.names ⟨dp, dotName⟩ dotName = true := by
    rw [Dirent.names, bne_iff_ne.mpr nonzero]
    rfl
  rw [entries_eq, dirlookup, find?_cons, named]
  rfl

theorem dirlookup_dotDot :
    ∃ parent, dirlookup dir.entries dotDotName = some parent ∧
      ∃ rest, dir.entries = ⟨dp, dotName⟩ :: ⟨parent, dotDotName⟩ :: rest := by
  obtain ⟨parent, rest, nonzero, entries_eq⟩ := directory.dots
  have dot : Dirent.names ⟨dp, dotName⟩ dotDotName = false :=
    Bool.and_false _
  have named : Dirent.names ⟨parent, dotDotName⟩ dotDotName = true := by
    rw [Dirent.names, bne_iff_ne.mpr nonzero]
    rfl
  refine ⟨parent, ?_, rest, entries_eq⟩
  rw [entries_eq, dirlookup, find?_cons, dot, find?_cons, named]
  rfl

/-- A name that is not in use is not one of the first two. -/
theorem notDots_of_fresh (nonzero : dp ≠ 0) (fresh : dirlookup dir.entries name = none) :
    ¬ (name = dotName ∨ name = dotDotName) := by
  rintro (rfl | rfl)
  · rw [directory.dirlookup_dot nonzero] at fresh
    contradiction
  · obtain ⟨parent, found, -⟩ := directory.dirlookup_dotDot
    rw [found] at fresh
    contradiction

/-- An empty directory has no other names. -/
theorem dirlookup_of_empty (empty : isdirempty dir.entries = true)
    (notDots : ¬ (name = dotName ∨ name = dotDotName)) :
    dirlookup dir.entries name = none := by
  obtain ⟨parent, rest, -, entries_eq⟩ := directory.dots
  rw [entries_eq, isdirempty, List.all_eq_true] at empty
  rw [dirlookup, map_eq_none_iff, find?_eq_none]
  intro entry mem named
  rw [Dirent.names, Bool.and_eq_true, bne_iff_ne, beq_iff_eq] at named
  rw [entries_eq, mem_cons, mem_cons] at mem
  rcases mem with rfl | rfl | mem
  · exact notDots (.inl named.2.symm)
  · exact notDots (.inr named.2.symm)
  · exact named.1 (beq_iff_eq.mp (empty entry mem))

/-- A directory with one more entry. -/
theorem enter (nonzero : dp ≠ 0) (fresh : dirlookup dir.entries name = none) (ip : Nat)
    {entered : Inode}
    (entries_eq : entered.entries = writeEntry dir.entries (freeSlot dir.entries) ⟨ip, name⟩) :
    Directory dp entered where
  unique := by
    rw [entries_eq]
    exact directory.unique.writeEntry ip fresh
  dots := by
    obtain ⟨parent, rest, parentNonzero, old_eq⟩ := directory.dots
    refine ⟨parent, writeEntry rest (freeSlot rest) ⟨ip, name⟩, parentNonzero, ?_⟩
    rw [entries_eq, old_eq, writeEntry_cons nonzero, writeEntry_cons parentNonzero]

/-- A directory with one entry less. -/
theorem remove (notDots : ¬ (name = dotName ∨ name = dotDotName)) {slot ip : Nat}
    (slot_eq : slotOf dir.entries name = some slot) (found : dirlookup dir.entries name = some ip)
    {removed : Inode} (entries_eq : removed.entries = dir.entries.set slot freeEntry) :
    Directory dp removed where
  unique := by
    rw [entries_eq]
    exact directory.unique.remove slot_eq
  dots := by
    obtain ⟨parent, rest, nonzero, old_eq⟩ := directory.dots
    obtain ⟨before, after, split, length_eq⟩ :=
      exists_split_of_dirlookup directory.unique slot_eq found
    -- The name is not one of the first two, so its slot is behind them.
    match before, split.symm.trans old_eq, length_eq with
    | [], first, _ =>
      rw [nil_append, cons.injEq] at first
      exact absurd (.inl (congrArg Dirent.name first.1)) notDots
    | [_], second, _ =>
      rw [singleton_append, cons.injEq, cons.injEq] at second
      exact absurd (.inr (congrArg Dirent.name second.2.1)) notDots
    | _ :: _ :: front, later, rfl =>
      obtain ⟨rfl, rfl, -⟩ := later
      refine ⟨parent, front ++ freeEntry :: after, nonzero, ?_⟩
      rw [entries_eq, split, set_length_append]
      rfl

end Directory

theorem LinkedDir.isDir (linked : LinkedDir state dp) : IsDir state dp := by
  obtain ⟨dir, read, isDir, -⟩ := linked
  exact ⟨dir, read, isDir⟩

theorem LinkedDir.pos (linked : LinkedDir state dp) (read : state.inode? dp = some dir) :
    0 < dir.nlink := by
  obtain ⟨dir', read', -, links⟩ := linked
  obtain rfl : dir' = dir := some.inj (read'.symm.trans read)
  exact links

namespace Tree

variable (tree : Tree state)

include tree

theorem nonzero (read : state.inode? ip = some inode) : ip ≠ 0 := by
  rintro rfl
  rw [tree.zero] at read
  contradiction

theorem nlink_eq (read : state.inode? ip = some inode) : inode.nlink = links state ip := by
  have counted := tree.counted ip (tree.nonzero read)
  rwa [read] at counted

theorem shortLinks : state.ShortLinks := by
  intro ip inode read
  refine ⟨?_, tree.short read⟩
  rw [tree.nlink_eq read]
  exact Int.natCast_nonneg _

/-- The tree is a matter of the inode table alone. -/
theorem congr {other : State} (inodes_eq : other.inodes = state.inodes) : Tree other := by
  obtain ⟨inodes, cwd, ofile, heldElsewhere, ftableFree⟩ := other
  obtain ⟨inodes', cwd', ofile', heldElsewhere', ftableFree'⟩ := state
  obtain rfl : inodes = inodes' := inodes_eq
  exact ⟨tree.zero, tree.directory, tree.emptied, tree.counted, tree.short, tree.root,
    fun ⟨dir, linked⟩ notRoot => by
      obtain ⟨above, name, up, ⟨above', read⟩, notDots, step⟩ := tree.parent ⟨dir, linked⟩ notRoot
      exact ⟨above, name, up, ⟨above', read⟩, notDots, step⟩,
    fun ⟨⟨dir, linked⟩, notDots, step⟩ isDir => by
      obtain ⟨notRoot, up, only⟩ := tree.single ⟨⟨dir, linked⟩, notDots, step⟩ isDir
      exact ⟨notRoot, up, fun other ⟨⟨dir, linked⟩, notDots, step⟩ =>
        only other ⟨⟨dir, linked⟩, notDots, step⟩⟩⟩

end Tree

section

variable {first second : State} (same : first.inode? dp = second.inode? dp)
include same

theorem isDir_iff_of_inode : IsDir first dp ↔ IsDir second dp := by
  rw [IsDir, IsDir, same]

theorem linkedDir_iff_of_inode : LinkedDir first dp ↔ LinkedDir second dp := by
  rw [LinkedDir, LinkedDir, same]

theorem child_eq_of_inode (name : Name) : child first dp name = child second dp name := by
  rw [child, child, same]

end

/-! ## Dropping a reference -/

section

variable (read : state.inode? ip = some inode)

include read

theorem linkedDir_free (noLinks : inode.nlink = 0) :
    LinkedDir (state.put ip none) dp ↔ LinkedDir state dp := by
  by_cases same : ip = dp
  · subst same
    constructor
    · rintro ⟨dir, readDir, -⟩
      rw [inode?_put_self (inode?_lt read)] at readDir
      contradiction
    · intro linked
      have := linked.pos read
      omega
  · exact linkedDir_iff_of_inode (inode?_put_ne same none)

theorem isDir_of_free (isDir : IsDir (state.put ip none) dp) : ip ≠ dp ∧ IsDir state dp := by
  have distinct : ip ≠ dp := by
    rintro rfl
    obtain ⟨dir, readDir, -⟩ := isDir
    rw [inode?_put_self (inode?_lt read)] at readDir
    contradiction
  exact ⟨distinct, (isDir_iff_of_inode (inode?_put_ne distinct none)).mp isDir⟩

variable (noLinks : inode.nlink = 0)
include noLinks

theorem child_free (linked : LinkedDir state dp) (name : Name) :
    child (state.put ip none) dp name = child state dp name := by
  apply child_eq_of_inode
  apply inode?_put_ne
  rintro rfl
  have := linked.pos read
  omega

theorem names_free : Names (state.put ip none) dp name target ↔ Names state dp name target := by
  constructor
  · rintro ⟨linked, notDots, step⟩
    rw [linkedDir_free read noLinks] at linked
    rw [child_free read noLinks linked] at step
    exact ⟨linked, notDots, step⟩
  · rintro ⟨linked, notDots, step⟩
    exact ⟨(linkedDir_free read noLinks).mpr linked, notDots,
      (child_free read noLinks linked name).trans step⟩

/-- Freeing an inode without links changes no link. -/
theorem links_free (target : Nat) : links (state.put ip none) target = links state target := by
  have without := links_put_none state ip target
  rwa [read, linksIn_of_unlinked noLinks] at without

end

theorem Tree.free (tree : Tree state) (read : state.inode? ip = some inode)
    (noLinks : inode.nlink = 0) : Tree (state.put ip none) := by
  have before {other : Nat} {inode' : Inode}
      (readOther : (state.put ip none).inode? other = some inode') :
      state.inode? other = some inode' := by
    by_cases same : ip = other
    · subst same
      rw [inode?_put_self (inode?_lt read)] at readOther
      contradiction
    · rwa [inode?_put_ne same] at readOther
  refine ⟨?_, fun readDir => tree.directory (before readDir),
    fun readDir => tree.emptied (before readDir), ?_,
    fun readOther => tree.short (before readOther), ?_, ?_, ?_⟩
  · rw [inode?_put_ne (tree.nonzero read), tree.zero]
  · intro target nonzero
    rw [links_free read noLinks, ← tree.counted target nonzero]
    by_cases same : ip = target
    · subst same
      rw [inode?_put_self (inode?_lt read), read]
      exact noLinks.symm
    · rw [inode?_put_ne same]
  · exact ⟨(linkedDir_free read noLinks).mpr tree.root.1,
      (child_free read noLinks tree.root.1 dotDotName).trans tree.root.2⟩
  · intro dp linked notRoot
    rw [linkedDir_free read noLinks] at linked
    obtain ⟨above, name, up, names⟩ := tree.parent linked notRoot
    exact ⟨above, name, (child_free read noLinks linked _).trans up,
      (names_free read noLinks).mpr names⟩
  · intro above name dp names isDir
    rw [names_free read noLinks] at names
    obtain ⟨distinct, isDir⟩ := isDir_of_free read isDir
    obtain ⟨notRoot, up, only⟩ := tree.single names isDir
    rw [child_eq_of_inode (inode?_put_ne distinct none)]
    exact ⟨notRoot, up, fun other otherNames =>
      only other ((names_free read noLinks).mp otherNames)⟩

/-- Dropping a reference keeps the tree. -/
theorem Tree.iput (tree : Tree state) (inum : Nat) : Tree (state.iput inum) := by
  unfold State.iput
  split
  · exact tree
  rename_i inode read
  split
  · rename_i unused
    exact tree.free read unused.1
  · exact tree

/-! ## A new name for a file -/

theorem linksIn_of_not_isDir (notDir : ¬ IsDir state dp) (ip : Nat) :
    linksIn dp (state.inode? dp) ip = 0 := by
  cases read : state.inode? dp with
  | none => rfl
  | some inode => exact linksIn_of_not_dir (fun isDir => notDir ⟨inode, read, isDir⟩) dp ip

namespace Enters

variable {file : Inode}

theorem inode?_entered_ne (notParent : dp ≠ other) (notFile : ip ≠ other) :
    (entered state ip dp file dir name).inode? other = state.inode? other := by
  rw [entered, inode?_setInode_ne notParent, inode?_setInode_ne notFile]

variable (enters : Enters state ip dp file dir name)

include enters

/-- The inodes of the new state are the directory, the file and the others. -/
theorem inode?_entered_cases
    (read : (entered state ip dp file dir name).inode? other = some inode) :
    (other = dp ∧ inode = { dir with
      entries := writeEntry dir.entries (freeSlot dir.entries) ⟨ip, name⟩ }) ∨
    (other = ip ∧ inode = file) ∨ state.inode? other = some inode :=
  inode?_both_cases enters.bound (inode?_lt enters.readDir) read

theorem isDir_entered : IsDir (entered state ip dp file dir name) other ↔ IsDir state other := by
  by_cases atParent : dp = other
  · subst atParent
    exact iff_of_true ⟨_, enters.inode?_parent, enters.isDir⟩ ⟨dir, enters.readDir, enters.isDir⟩
  by_cases atFile : ip = other
  · subst atFile
    exact iff_of_false (not_isDir enters.inode?_file enters.notDir) enters.notDirBefore
  · exact isDir_iff_of_inode (inode?_entered_ne atParent atFile)

theorem linkedDir_entered :
    LinkedDir (entered state ip dp file dir name) other ↔ LinkedDir state other := by
  by_cases atParent : dp = other
  · subst atParent
    rw [LinkedDir, enters.inode?_parent, LinkedDir, enters.readDir]
    constructor
    · rintro ⟨_, ⟨⟩, linked⟩
      exact ⟨dir, rfl, linked⟩
    · rintro ⟨_, ⟨⟩, linked⟩
      exact ⟨_, rfl, linked⟩
  · by_cases atFile : ip = other
    · subst atFile
      exact iff_of_false (fun linked => not_isDir enters.inode?_file enters.notDir linked.isDir)
        (fun linked => enters.notDirBefore linked.isDir)
    · exact linkedDir_iff_of_inode (inode?_entered_ne atParent atFile)

/-- No directory gets a name. -/
theorem names_entered {target : Nat} {other : Name} (isDir : IsDir state target) :
    Names (entered state ip dp file dir name) above other target ↔
      Names state above other target := by
  have step_iff : child (entered state ip dp file dir name) above other = some target ↔
      child state above other = some target := by
    rw [enters.child_entered]
    split
    · rename_i atNew
      rw [atNew.1, atNew.2, child_of_inode enters.readDir enters.isDir, enters.fresh]
      refine iff_of_false ?_ nofun
      rintro ⟨⟩
      exact enters.notDirBefore isDir
    · rfl
  constructor
  · rintro ⟨linked, notDots, step⟩
    exact ⟨enters.linkedDir_entered.mp linked, notDots, step_iff.mp step⟩
  · rintro ⟨linked, notDots, step⟩
    exact ⟨enters.linkedDir_entered.mpr linked, notDots, step_iff.mpr step⟩

/-- The new entry is one more link to the file. -/
theorem links_entered (linked : 0 < dir.nlink) (notDot : name ≠ dotName) (nonzero : target ≠ 0) :
    links (entered state ip dp file dir name) target =
      links state target + if target = ip then 1 else 0 := by
  have changed : links (entered state ip dp file dir name) target + _ + _ = _ :=
    links_both enters.bound (inode?_lt enters.readDir) enters.distinct target
  have contributed : linksIn dp (some { dir with
        entries := writeEntry dir.entries (freeSlot dir.entries) ⟨ip, name⟩ }) target =
      naming dp (writeEntry dir.entries (freeSlot dir.entries) ⟨ip, name⟩) target :=
    if_pos ⟨enters.isDir, linked⟩
  rw [linksIn_of_not_isDir enters.notDirBefore, linksIn_of_not_dir enters.notDir, enters.readDir,
    linksIn_of_dir enters.isDir linked, contributed,
    naming_writeEntry notDot dp dir.entries ip nonzero] at changed
  omega

end Enters

/-- Entering a file in a linked directory keeps the tree, if the new link is
counted. -/
theorem Tree.enter {file dir : Inode} (tree : Tree state)
    (enters : Enters state ip dp file dir name) (linked : 0 < dir.nlink)
    (count : file.nlink = nlinkOf (state.inode? ip) + 1) (short : file.nlink < 32768) :
    Tree (entered state ip dp file dir name) := by
  have directory := tree.directory enters.readDir enters.isDir
  have notDots := directory.notDots_of_fresh (tree.nonzero enters.readDir) enters.fresh
  have notNew {above : Nat} {other : Name} (dots : other = dotName ∨ other = dotDotName) :
      child (entered state ip dp file dir name) above other = child state above other := by
    rw [enters.child_entered, if_neg]
    rintro ⟨-, rfl⟩
    exact notDots dots
  refine ⟨?_, ?_, ?_, ?_, ?_, ?_, ?_, ?_⟩
  · rw [Enters.inode?_entered_ne (tree.nonzero enters.readDir) enters.nonzero, tree.zero]
  · intro other inode read isDir
    rcases enters.inode?_entered_cases read with ⟨rfl, rfl⟩ | ⟨rfl, rfl⟩ | before
    · exact directory.enter (tree.nonzero enters.readDir) enters.fresh ip rfl
    · exact absurd isDir enters.notDir
    · exact tree.directory before isDir
  · intro other inode read isDir noLinks
    rcases enters.inode?_entered_cases read with ⟨rfl, rfl⟩ | ⟨rfl, rfl⟩ | before
    · exact absurd noLinks (Int.ne_of_gt linked)
    · exact absurd isDir enters.notDir
    · exact tree.emptied before isDir noLinks
  · intro target nonzero
    have before := tree.counted target nonzero
    rw [enters.links_entered linked (fun dot => notDots (.inl dot)) nonzero]
    by_cases atFile : ip = target
    · subst atFile
      rw [enters.inode?_file, if_pos rfl, nlinkOf, count, before]
      rfl
    · rw [if_neg (Ne.symm atFile)]
      by_cases atParent : dp = target
      · subst atParent
        rw [enters.readDir] at before
        rw [enters.inode?_parent]
        exact before
      · rw [Enters.inode?_entered_ne atParent atFile]
        exact before
  · intro other inode read
    rcases enters.inode?_entered_cases read with ⟨rfl, rfl⟩ | ⟨rfl, rfl⟩ | before
    · exact (tree.short enters.readDir : dir.nlink < 32768)
    · exact short
    · exact tree.short before
  · exact ⟨enters.linkedDir_entered.mpr tree.root.1, (notNew (.inr rfl)).trans tree.root.2⟩
  · intro other linkedOther notRoot
    rw [enters.linkedDir_entered] at linkedOther
    obtain ⟨above, otherName, up, names⟩ := tree.parent linkedOther notRoot
    exact ⟨above, otherName, (notNew (.inr rfl)).trans up,
      (enters.names_entered linkedOther.isDir).mpr names⟩
  · intro above otherName other names isDir
    rw [enters.isDir_entered] at isDir
    rw [enters.names_entered isDir] at names
    obtain ⟨notRoot, up, only⟩ := tree.single names isDir
    exact ⟨notRoot, (notNew (.inr rfl)).trans up, fun another anotherNames =>
      only another ((enters.names_entered isDir).mp anotherNames)⟩

/-! ## A new directory -/

/-- A directory as `create` makes it. -/
def newDir (ip dp : Nat) : Inode where
  type := .dir
  nlink := 1
  entries := [⟨ip, dotName⟩, ⟨dp, dotDotName⟩]
  content := []

/-- The parent of a new directory. -/
def newParent (dir : Inode) (ip : Nat) (name : Name) : Inode :=
  { dir with
    nlink := toShort (dir.nlink + 1)
    entries := writeEntry dir.entries (freeSlot dir.entries) ⟨ip, name⟩ }

/-- The state after a directory is made. -/
def madeDir (state : State) (ip dp : Nat) (dir : Inode) (name : Name) : State :=
  (state.setInode ip (newDir ip dp)).setInode dp (newParent dir ip name)

/-- A directory can be made in another one under a fresh name. -/
structure MakesDir (state : State) (ip dp : Nat) (dir : Inode) (name : Name) : Prop where
  bound : ip < state.inodes.length
  free : state.inode? ip = none
  nonzero : ip ≠ 0
  readDir : state.inode? dp = some dir
  isDir : dir.type = .dir
  fresh : dirlookup dir.entries name = none
  linked : 0 < dir.nlink
  short : dir.nlink < 32767

/-- A name is a link. -/
theorem one_le_naming (notDot : name ≠ dotName) (found : dirlookup entries name = some ip)
    (dp : Nat) : 1 ≤ naming dp entries ip := by
  obtain ⟨⟨inum, named⟩, found_eq, rfl⟩ := map_eq_some_iff.mp found
  have names := find?_some found_eq
  rw [Dirent.names, Bool.and_eq_true, beq_iff_eq] at names
  obtain rfl : named = name := names.2
  exact countP_pos_iff.mpr ⟨_, mem_of_find?_eq_some found_eq,
    (links_of_ne_dot notDot inum dp inum).mpr rfl⟩

/-- What a linked directory names is allocated. -/
theorem Tree.exists_inode (tree : Tree state) (linked : LinkedDir state dp)
    (notDot : name ≠ dotName) (step : child state dp name = some ip) :
    ∃ inode, state.inode? ip = some inode := by
  obtain ⟨dir, read, isDir, links⟩ := linked
  rw [child_of_inode read isDir] at step
  have some_link := one_le_naming notDot step dp
  rw [← linksIn_of_dir isDir links, ← read] at some_link
  have counted := tree.counted ip (dirlookup_ne_zero step)
  have le := linksIn_le_links state dp ip
  cases readTarget : state.inode? ip with
  | none =>
    rw [readTarget, nlinkOf] at counted
    omega
  | some inode => exact ⟨inode, rfl⟩

namespace MakesDir

theorem naming_newDir (ip dp target : Nat) :
    naming ip (newDir ip dp).entries target = if target = dp then 1 else 0 := by
  have dot : Dirent.links ⟨ip, dotName⟩ ip target = false := by
    by_cases same : target = ip
    · rw [Dirent.links, same, beq_self_eq_true]
      rfl
    · rw [Dirent.links, beq_eq_false_iff_ne.mpr (Ne.symm same)]
      rfl
  have dotDot : Dirent.links ⟨dp, dotDotName⟩ ip target = true ↔ target = dp :=
    links_of_ne_dot (by decide) dp ip target
  rw [naming, newDir, countP_cons, countP_cons, countP_nil, dot]
  simp only [dotDot, Bool.false_eq_true, if_false, Nat.zero_add, Nat.add_zero]

theorem directory_newDir (nonzero : dp ≠ 0) : Directory ip (newDir ip dp) where
  unique := by
    intro other
    rw [newDir, nameCount, countP_cons, countP_cons, countP_nil]
    split
    · rename_i second
      split
      · rename_i first
        rw [Dirent.names, Bool.and_eq_true, beq_iff_eq] at first second
        exact absurd (first.2.trans second.2.symm) (by decide : dotName ≠ dotDotName)
      · exact Nat.le_refl 1
    · split <;> omega
  dots := ⟨dp, [], nonzero, rfl⟩

theorem inode?_madeDir_ne (notParent : dp ≠ other) (notNew : ip ≠ other) :
    (madeDir state ip dp dir name).inode? other = state.inode? other := by
  rw [madeDir, inode?_setInode_ne notParent, inode?_setInode_ne notNew]

variable (makes : MakesDir state ip dp dir name)

include makes

theorem distinct : ip ≠ dp := by
  rintro rfl
  exact nomatch makes.free.symm.trans makes.readDir

theorem inode?_new : (madeDir state ip dp dir name).inode? ip = some (newDir ip dp) := by
  rw [madeDir, inode?_setInode_ne makes.distinct.symm, inode?_setInode_of_lt makes.bound]

theorem inode?_parent :
    (madeDir state ip dp dir name).inode? dp = some (newParent dir ip name) := by
  rw [madeDir, inode?_setInode_self]
  rw [inode?_setInode_ne makes.distinct]
  exact makes.readDir

theorem inode?_madeDir_cases (read : (madeDir state ip dp dir name).inode? other = some inode) :
    (other = dp ∧ inode = newParent dir ip name) ∨ (other = ip ∧ inode = newDir ip dp) ∨
      state.inode? other = some inode :=
  inode?_both_cases makes.bound (inode?_lt makes.readDir) read

/-- The count of the parent does not wrap. -/
theorem nlink_newParent : (newParent dir ip name).nlink = dir.nlink + 1 := by
  have links := makes.linked
  have short := makes.short
  exact toShort_of_mem (by omega) (by omega)

theorem isDir_madeDir :
    IsDir (madeDir state ip dp dir name) other ↔ other = ip ∨ IsDir state other := by
  by_cases atParent : dp = other
  · subst atParent
    exact iff_of_true ⟨_, makes.inode?_parent, makes.isDir⟩ (.inr ⟨dir, makes.readDir, makes.isDir⟩)
  by_cases atNew : ip = other
  · subst atNew
    exact iff_of_true ⟨_, makes.inode?_new, rfl⟩ (.inl rfl)
  · rw [isDir_iff_of_inode (inode?_madeDir_ne atParent atNew), or_iff_right (Ne.symm atNew)]

theorem linkedDir_madeDir :
    LinkedDir (madeDir state ip dp dir name) other ↔ other = ip ∨ LinkedDir state other := by
  by_cases atParent : dp = other
  · subst atParent
    have links := makes.linked
    refine iff_of_true ⟨_, makes.inode?_parent, makes.isDir, ?_⟩
      (.inr ⟨dir, makes.readDir, makes.isDir, makes.linked⟩)
    rw [makes.nlink_newParent]
    omega
  · by_cases atNew : ip = other
    · subst atNew
      exact iff_of_true ⟨_, makes.inode?_new, rfl, Int.one_pos⟩ (.inl rfl)
    · rw [linkedDir_iff_of_inode (inode?_madeDir_ne atParent atNew), or_iff_right (Ne.symm atNew)]

/-- The directories that were there keep their names, and the parent gets one
more. -/
theorem child_madeDir (old : ip ≠ other) (otherName : Name) :
    child (madeDir state ip dp dir name) other otherName =
      if other = dp ∧ otherName = name then some ip else child state other otherName := by
  by_cases atParent : dp = other
  · subst atParent
    have isDir : (newParent dir ip name).type = .dir := makes.isDir
    rw [child_of_inode makes.inode?_parent isDir, child_of_inode makes.readDir makes.isDir,
      newParent, dirlookup_writeEntry makes.fresh makes.nonzero]
    simp only [true_and]
  · rw [if_neg (fun both => atParent both.1.symm),
      child_eq_of_inode (inode?_madeDir_ne atParent old)]

theorem child_newDir (nonzero : dp ≠ 0) :
    child (madeDir state ip dp dir name) ip dotDotName = some dp := by
  have directory : Directory ip (newDir ip dp) := directory_newDir nonzero
  obtain ⟨_, found, _, ⟨⟩⟩ := directory.dirlookup_dotDot
  exact (child_of_inode makes.inode?_new rfl _).trans found

/-- The only new name is that of the new directory. -/
theorem names_madeDir (tree : Tree state) {target : Nat} {other : Name} :
    Names (madeDir state ip dp dir name) above other target ↔
      (above = dp ∧ other = name ∧ target = ip) ∨ Names state above other target := by
  have nonzero := tree.nonzero makes.readDir
  have directory := tree.directory makes.readDir makes.isDir
  have linked : LinkedDir state dp := ⟨dir, makes.readDir, makes.isDir, makes.linked⟩
  by_cases atNew : ip = above
  · subst atNew
    refine iff_of_false ?_ ?_
    · rintro ⟨-, notDots, step⟩
      rw [child_of_inode makes.inode?_new rfl,
        (directory_newDir nonzero).dirlookup_of_empty rfl notDots] at step
      contradiction
    · rintro (⟨same, -⟩ | ⟨⟨inode, read, -⟩, -⟩)
      · exact makes.distinct same
      · exact nomatch makes.free.symm.trans read
  · have step_eq := makes.child_madeDir atNew other
    have linked_iff := makes.linkedDir_madeDir.trans (or_iff_right (Ne.symm atNew))
    constructor
    · rintro ⟨linkedAbove, notDots, step⟩
      rw [step_eq] at step
      split at step
      · rename_i new
        exact .inl ⟨new.1, new.2, (some.inj step).symm⟩
      · exact .inr ⟨linked_iff.mp linkedAbove, notDots, step⟩
    · rintro (⟨rfl, rfl, rfl⟩ | ⟨linkedAbove, notDots, step⟩)
      · exact ⟨linked_iff.mpr linked, directory.notDots_of_fresh nonzero makes.fresh,
          step_eq.trans (if_pos ⟨rfl, rfl⟩)⟩
      refine ⟨linked_iff.mpr linkedAbove, notDots, ?_⟩
      rw [step_eq, if_neg]
      · exact step
      · rintro ⟨rfl, rfl⟩
        rw [child_of_inode makes.readDir makes.isDir, makes.fresh] at step
        contradiction

/-- The new directory and its parent get a link each. -/
theorem links_madeDir (notDot : name ≠ dotName) (nonzero : target ≠ 0) :
    links (madeDir state ip dp dir name) target =
      links state target + (if target = ip then 1 else 0) + if target = dp then 1 else 0 := by
  have changed : links (madeDir state ip dp dir name) target + _ + _ = _ :=
    links_both makes.bound (inode?_lt makes.readDir) makes.distinct target
  have parentLinked : 0 < (newParent dir ip name).nlink := by
    have links := makes.linked
    rw [makes.nlink_newParent]
    omega
  have parentDir : (newParent dir ip name).type = .dir := makes.isDir
  rw [makes.free, linksIn_of_dir rfl Int.one_pos, naming_newDir, linksIn, makes.readDir,
    linksIn_of_dir makes.isDir makes.linked, linksIn_of_dir parentDir parentLinked, newParent,
    naming_writeEntry notDot dp dir.entries ip nonzero] at changed
  omega

end MakesDir

/-- Making a directory in a linked one keeps the tree. -/
theorem Tree.makeDir (tree : Tree state) (makes : MakesDir state ip dp dir name) :
    Tree (madeDir state ip dp dir name) := by
  have dpNonzero := tree.nonzero makes.readDir
  have directory := tree.directory makes.readDir makes.isDir
  have notDots := directory.notDots_of_fresh dpNonzero makes.fresh
  -- Nothing that is allocated is the new directory.
  have notNew {other : Nat} (isDir : IsDir state other) : ip ≠ other := by
    rintro rfl
    obtain ⟨inode, read, -⟩ := isDir
    exact nomatch makes.free.symm.trans read
  have up_eq {other : Nat} (isDir : IsDir state other) :
      child (madeDir state ip dp dir name) other dotDotName = child state other dotDotName := by
    rw [makes.child_madeDir (notNew isDir), if_neg]
    rintro ⟨-, rfl⟩
    exact notDots (.inr rfl)
  have oldTarget {above other : Nat} {otherName : Name}
      (names : Names state above otherName other) : other ≠ ip := by
    rintro rfl
    obtain ⟨inode, read⟩ := tree.exists_inode names.linked (fun dot => names.notDots (.inl dot))
      names.step
    exact nomatch makes.free.symm.trans read
  refine ⟨?_, ?_, ?_, ?_, ?_, ?_, ?_, ?_⟩
  · rw [MakesDir.inode?_madeDir_ne dpNonzero makes.nonzero, tree.zero]
  · intro other inode read isDir
    rcases makes.inode?_madeDir_cases read with ⟨rfl, rfl⟩ | ⟨rfl, rfl⟩ | before
    · exact directory.enter dpNonzero makes.fresh ip rfl
    · exact MakesDir.directory_newDir dpNonzero
    · exact tree.directory before isDir
  · intro other inode read isDir noLinks
    rcases makes.inode?_madeDir_cases read with ⟨rfl, rfl⟩ | ⟨rfl, rfl⟩ | before
    · have links := makes.linked
      rw [makes.nlink_newParent] at noLinks
      omega
    · rfl
    · exact tree.emptied before isDir noLinks
  · intro target nonzero
    have before := tree.counted target nonzero
    rw [makes.links_madeDir (fun dot => notDots (.inl dot)) nonzero]
    by_cases atNew : ip = target
    · subst atNew
      have one : (newDir ip dp).nlink = 1 := rfl
      rw [makes.free, nlinkOf] at before
      rw [makes.inode?_new, if_pos rfl, if_neg makes.distinct, nlinkOf]
      omega
    · rw [if_neg (Ne.symm atNew)]
      by_cases atParent : dp = target
      · subst atParent
        rw [makes.readDir, nlinkOf] at before
        rw [makes.inode?_parent, if_pos rfl, nlinkOf, makes.nlink_newParent]
        omega
      · rw [MakesDir.inode?_madeDir_ne atParent atNew, if_neg (Ne.symm atParent)]
        exact before
  · intro other inode read
    rcases makes.inode?_madeDir_cases read with ⟨rfl, rfl⟩ | ⟨rfl, rfl⟩ | before
    · have short := makes.short
      rw [makes.nlink_newParent]
      omega
    · exact (by decide : (1 : Int) < 32768)
    · exact tree.short before
  · exact ⟨makes.linkedDir_madeDir.mpr (.inr tree.root.1),
      (up_eq tree.root.1.isDir).trans tree.root.2⟩
  · intro other linkedOther notRoot
    rcases makes.linkedDir_madeDir.mp linkedOther with rfl | linkedOther
    · exact ⟨dp, name, makes.child_newDir dpNonzero,
        (makes.names_madeDir tree).mpr (.inl ⟨rfl, rfl, rfl⟩)⟩
    · obtain ⟨above, otherName, up, names⟩ := tree.parent linkedOther notRoot
      exact ⟨above, otherName, (up_eq linkedOther.isDir).trans up,
        (makes.names_madeDir tree).mpr (.inr names)⟩
  · intro above otherName other names isDir
    rcases (makes.names_madeDir tree).mp names with ⟨rfl, rfl, rfl⟩ | names
    · refine ⟨notNew tree.root.1.isDir, makes.child_newDir dpNonzero, ?_⟩
      intro another anotherNames
      rcases (makes.names_madeDir tree).mp anotherNames with ⟨-, rfl, -⟩ | anotherNames
      · rfl
      · exact absurd rfl (oldTarget anotherNames)
    · have isDirBefore := (makes.isDir_madeDir.mp isDir).resolve_left (oldTarget names)
      obtain ⟨notRoot, up, only⟩ := tree.single names isDirBefore
      refine ⟨notRoot, (up_eq isDirBefore).trans up, ?_⟩
      intro another anotherNames
      rcases (makes.names_madeDir tree).mp anotherNames with ⟨-, -, new⟩ | anotherNames
      · exact absurd new (oldTarget names)
      · exact only another anotherNames

/-! ## A removed name -/

/-- The directory a name is removed from. -/
def lessParent (dir inode : Inode) (slot : Nat) : Inode :=
  { dir with
    nlink := if inode.type = .dir then toShort (dir.nlink - 1) else dir.nlink
    entries := dir.entries.set slot freeEntry }

/-- The state after a name is removed, before the inode it named is dropped. -/
def removedName (state : State) (dp slot ip : Nat) (dir inode : Inode) : State :=
  (state.setInode dp (lessParent dir inode slot)).setInode ip
    { inode with nlink := toShort (inode.nlink - 1) }

theorem one_le_linksIn (linked : LinkedDir state dp) (notDot : name ≠ dotName)
    (step : child state dp name = some ip) :
    1 ≤ linksIn dp (state.inode? dp) ip := by
  obtain ⟨dir, read, isDir, links⟩ := linked
  rw [child_of_inode read isDir] at step
  rw [read, linksIn_of_dir isDir links]
  exact one_le_naming notDot step dp

/-- With unique names every entry is found by its name. -/
theorem dirlookup_of_mem (unique : UniqueNames entries) (mem : entry ∈ entries)
    (inUse : entry.inum ≠ 0) :
    dirlookup entries entry.name = some entry.inum := by
  have named : entry.names entry.name = true := by
    rw [Dirent.names, bne_iff_ne.mpr inUse, beq_self_eq_true]
    rfl
  obtain ⟨before, after, rfl⟩ := append_of_mem mem
  have count := unique entry.name
  rw [nameCount_append_cons, if_pos named] at count
  have beforeNone : dirlookup before entry.name = none := dirlookup_eq_none_iff.mpr (by omega)
  rw [dirlookup_append_cons, beforeNone, if_pos named, none_or]

/-- The only link in an empty directory is to its parent. -/
theorem Directory.naming_of_empty (directory : Directory ip inode)
    (empty : isdirempty inode.entries = true) {parent : Nat}
    (up : dirlookup inode.entries dotDotName = some parent) (nonzero : target ≠ 0) :
    naming ip inode.entries target = if target = parent then 1 else 0 := by
  obtain ⟨parent', up', rest, entries_eq⟩ := directory.dirlookup_dotDot
  obtain rfl : parent' = parent := some.inj (up'.symm.trans up)
  have restFree : naming ip rest target = 0 := by
    rw [entries_eq, isdirempty, drop_succ_cons, drop_succ_cons, drop_zero,
      List.all_eq_true] at empty
    rw [naming, countP_eq_zero]
    intro entry mem counted
    rw [links_eq_false_of_free (beq_iff_eq.mp (empty entry mem)) ip nonzero] at counted
    contradiction
  have first := MakesDir.naming_newDir ip parent' target
  rw [newDir, naming, countP_cons, countP_cons, countP_nil] at first
  rw [naming] at restFree
  rw [entries_eq, naming, countP_cons, countP_cons, restFree, first]

namespace UnlinkAt

variable {slot : Nat}

section

variable (tree : Tree state) (unlink : UnlinkAt state dp slot ip dir inode name)

include tree unlink

/-- A directory with a name that can be removed is linked. -/
theorem pos : 0 < dir.nlink := by
  have nonneg := (tree.shortLinks unlink.readDir).1
  by_contra notLinked
  have empty := tree.emptied unlink.readDir unlink.isDir (by omega)
  have missing := (tree.directory unlink.readDir unlink.isDir).dirlookup_of_empty empty
    unlink.notDots
  exact nomatch missing.symm.trans unlink.target

theorem linkedDir : LinkedDir state dp :=
  ⟨dir, unlink.readDir, unlink.isDir, unlink.pos tree⟩

theorem names : Names state dp name ip :=
  ⟨unlink.linkedDir tree, unlink.notDots, unlink.child_eq⟩

/-- The removed inode has no name of its own in it. -/
theorem not_names {other : Name} : ¬ Names state ip other target := by
  rintro ⟨linked, notDots, step⟩
  obtain ⟨inode', read, isDir, -⟩ := linked
  obtain rfl : inode' = inode := some.inj (read.symm.trans unlink.read)
  rw [child_of_inode read isDir,
    (tree.directory read isDir).dirlookup_of_empty (unlink.empty isDir) notDots] at step
  contradiction

/-- A directory that can be removed is named by its parent only, once. -/
theorem linksIn_target (inodeDir : inode.type = .dir) (other : Nat) :
    linksIn other (state.inode? other) ip ≤ if other = dp then 1 else 0 := by
  have names := unlink.names tree
  obtain ⟨notRoot, up, only⟩ := tree.single names ⟨inode, unlink.read, inodeDir⟩
  cases read : state.inode? other with
  | none => exact Nat.zero_le _
  | some otherDir =>
    by_cases linked : otherDir.type = .dir ∧ 0 < otherDir.nlink
    swap
    · rw [linksIn, if_neg linked]
      exact Nat.zero_le _
    have directory := tree.directory read linked.1
    have linkedOther : LinkedDir state other := ⟨otherDir, read, linked⟩
    -- Every entry that is a link to the inode has the name to be removed.
    have isName {entry : Dirent} (mem : entry ∈ otherDir.entries)
        (counted : entry.links other ip = true) : other = dp ∧ entry.names name = true := by
      rw [Dirent.links, Bool.and_eq_true, beq_iff_eq, Bool.not_eq_true',
        Bool.and_eq_false_iff, beq_eq_false_iff_ne, beq_eq_false_iff_ne] at counted
      have inUse : entry.inum ≠ 0 := counted.1 ▸ tree.nonzero unlink.read
      have found := dirlookup_of_mem directory.unique mem inUse
      rw [counted.1, ← child_of_inode read linked.1] at found
      have notDot : entry.name ≠ dotName := by
        intro dot
        rw [dot, child_of_inode read linked.1,
          directory.dirlookup_dot (tree.nonzero read), some.injEq] at found
        exact counted.2.elim (fun other => other dot) fun other => other found.symm
      have notDotDot : entry.name ≠ dotDotName := by
        intro dotDot
        rw [dotDot] at found
        by_cases atRoot : other = rootino
        · rw [atRoot, tree.root.2, some.injEq] at found
          exact notRoot found.symm
        · obtain ⟨above, otherName, upOther, namesOther⟩ := tree.parent linkedOther atRoot
          obtain rfl : above = ip := some.inj (upOther.symm.trans found)
          exact unlink.not_names tree namesOther
      have namesEntry : Names state other entry.name ip :=
        ⟨linkedOther, fun dots => dots.elim notDot notDotDot, found⟩
      have upEntry := (tree.single namesEntry ⟨inode, unlink.read, inodeDir⟩).2.1
      obtain rfl : other = dp := some.inj (upEntry.symm.trans up)
      refine ⟨rfl, ?_⟩
      rw [Dirent.names, bne_iff_ne.mpr inUse, only entry.name namesEntry, beq_self_eq_true]
      rfl
    rw [linksIn_of_dir linked.1 linked.2]
    by_cases same : other = dp
    · rw [if_pos same]
      refine Nat.le_trans ?_ (directory.unique name)
      exact countP_mono_left fun entry mem counted => (isName mem counted).2
    · rw [if_neg same, Nat.le_zero, naming, countP_eq_zero]
      exact fun entry mem counted => same (isName mem counted).1

/-- A directory that can be removed has one link. -/
theorem nlink_target (inodeDir : inode.type = .dir) : inode.nlink = 1 := by
  have atMost : links state ip ≤ 1 := calc
    links state ip ≤ ∑ other ∈ Finset.range state.inodes.length, if other = dp then 1 else 0 :=
      Finset.sum_le_sum fun other _ => unlink.linksIn_target tree inodeDir other
    _ = 1 := by
      rw [Finset.sum_ite_eq', if_pos (Finset.mem_range.mpr (inode?_lt unlink.readDir))]
  have atLeast := unlink.linked
  have counted := tree.nlink_eq unlink.read
  omega

/-- The parent of a directory has a link from `..` and one from above. -/
theorem nlink_parent (inodeDir : inode.type = .dir) : 2 ≤ dir.nlink := by
  obtain ⟨notRoot, up, -⟩ := tree.single (unlink.names tree) ⟨inode, unlink.read, inodeDir⟩
  have linkedTarget : LinkedDir state ip := by
    refine ⟨inode, unlink.read, inodeDir, ?_⟩
    rw [unlink.nlink_target tree inodeDir]
    exact Int.one_pos
  have fromBelow : 1 ≤ linksIn ip (state.inode? ip) dp :=
    one_le_linksIn linkedTarget (by decide) up
  have fromAbove : ∃ above, ip ≠ above ∧ 1 ≤ linksIn above (state.inode? above) dp := by
    by_cases atRoot : dp = rootino
    · subst atRoot
      exact ⟨rootino, notRoot, one_le_linksIn tree.root.1 (by decide) tree.root.2⟩
    obtain ⟨above, otherName, -, names⟩ := tree.parent (unlink.linkedDir tree) atRoot
    refine ⟨above, ?_, one_le_linksIn names.linked (fun dot => names.notDots (.inl dot)) names.step⟩
    rintro rfl
    exact unlink.not_names tree names
  obtain ⟨above, distinct, fromAbove⟩ := fromAbove
  have both := linksIn_add_le_links state distinct dp
  have counted := tree.nlink_eq unlink.readDir
  omega

/-- No count of the remaining links wraps. -/
theorem nlink_lessParent :
    (lessParent dir inode slot).nlink = dir.nlink - (if inode.type = .dir then 1 else 0) ∧
      0 < (lessParent dir inode slot).nlink := by
  have links := unlink.pos tree
  have short := tree.short unlink.readDir
  rw [lessParent]
  by_cases inodeDir : inode.type = .dir
  · have two := unlink.nlink_parent tree inodeDir
    simp only [if_pos inodeDir]
    rw [toShort_of_mem (by omega) (by omega)]
    omega
  · simp only [if_neg inodeDir, Int.sub_zero]
    exact ⟨trivial, links⟩

theorem nlink_less : toShort (inode.nlink - 1) = inode.nlink - 1 := by
  have links := unlink.linked
  have short := tree.short unlink.read
  exact toShort_of_mem (by omega) (by omega)

end

theorem inode?_removedName_ne (notParent : dp ≠ other) (notTarget : ip ≠ other) :
    (removedName state dp slot ip dir inode).inode? other = state.inode? other := by
  rw [removedName, inode?_setInode_ne notTarget, inode?_setInode_ne notParent]

section

variable (unlink : UnlinkAt state dp slot ip dir inode name)
include unlink

theorem inode?_removedName_target :
    (removedName state dp slot ip dir inode).inode? ip =
      some { inode with nlink := toShort (inode.nlink - 1) } := by
  rw [removedName, inode?_setInode_self]
  rw [inode?_setInode_ne unlink.distinct.symm]
  exact unlink.read

theorem inode?_removedName_parent :
    (removedName state dp slot ip dir inode).inode? dp = some (lessParent dir inode slot) := by
  rw [removedName, inode?_setInode_ne unlink.distinct, inode?_setInode_self unlink.readDir]

theorem inode?_removedName_cases {found : Inode}
    (read : (removedName state dp slot ip dir inode).inode? other = some found) :
    (other = dp ∧ found = lessParent dir inode slot) ∨
      (other = ip ∧ found = { inode with nlink := toShort (inode.nlink - 1) }) ∨
        state.inode? other = some found :=
  or_left_comm.mp (inode?_both_cases (inode?_lt unlink.readDir) (inode?_lt unlink.read) read)

theorem isDir_removedName :
    IsDir (removedName state dp slot ip dir inode) other ↔ IsDir state other := by
  by_cases atParent : dp = other
  · subst atParent
    exact iff_of_true ⟨_, unlink.inode?_removedName_parent, unlink.isDir⟩
      ⟨dir, unlink.readDir, unlink.isDir⟩
  · by_cases atTarget : ip = other
    · subst atTarget
      rw [IsDir, unlink.inode?_removedName_target, IsDir, unlink.read]
      constructor
      · rintro ⟨_, ⟨⟩, isDir⟩
        exact ⟨inode, rfl, isDir⟩
      · rintro ⟨_, ⟨⟩, isDir⟩
        exact ⟨_, rfl, isDir⟩
    · exact isDir_iff_of_inode (inode?_removedName_ne atParent atTarget)

/-- One name is gone. -/
theorem child_removedName (unique : UniqueNames dir.entries) (other : Nat) (otherName : Name) :
    child (removedName state dp slot ip dir inode) other otherName =
      if other = dp ∧ otherName = name then none else child state other otherName := by
  by_cases atParent : dp = other
  · subst atParent
    have isDir : (lessParent dir inode slot).type = .dir := unlink.isDir
    rw [child_of_inode unlink.inode?_removedName_parent isDir,
      child_of_inode unlink.readDir unlink.isDir, lessParent,
      dirlookup_remove unique unlink.slot_eq]
    simp only [true_and]
  · rw [if_neg (fun both => atParent both.1.symm)]
    by_cases atTarget : ip = other
    · subst atTarget
      rw [child, unlink.inode?_removedName_target, child, unlink.read]
      rfl
    · exact child_eq_of_inode (inode?_removedName_ne atParent atTarget) otherName

end

section

variable (tree : Tree state) (unlink : UnlinkAt state dp slot ip dir inode name)

include tree unlink

/-- A removed directory is no longer linked. -/
theorem linkedDir_removedName :
    LinkedDir (removedName state dp slot ip dir inode) other ↔
      other ≠ ip ∧ LinkedDir state other := by
  by_cases atParent : dp = other
  · subst atParent
    exact iff_of_true ⟨_, unlink.inode?_removedName_parent, unlink.isDir,
      (unlink.nlink_lessParent tree).2⟩ ⟨unlink.distinct.symm, unlink.linkedDir tree⟩
  · by_cases atTarget : ip = other
    · subst atTarget
      refine iff_of_false ?_ fun linked => linked.1 rfl
      rintro ⟨found, read, isDir, links⟩
      rw [unlink.inode?_removedName_target] at read
      cases read
      have one := unlink.nlink_target tree isDir
      have less := unlink.nlink_less tree
      have pos : 0 < toShort (inode.nlink - 1) := links
      omega
    · rw [linkedDir_iff_of_inode (inode?_removedName_ne atParent atTarget),
        and_iff_right (Ne.symm atTarget)]

theorem names_removedName {target : Nat} {other : Name} :
    Names (removedName state dp slot ip dir inode) above other target ↔
      ¬ (above = dp ∧ other = name) ∧ Names state above other target := by
  have unique := (tree.directory unlink.readDir unlink.isDir).unique
  have step_eq := unlink.child_removedName unique above other
  constructor
  · rintro ⟨linked, notDots, step⟩
    rw [step_eq, ite_none_left_eq_some] at step
    exact ⟨step.1, ((unlink.linkedDir_removedName tree).mp linked).2, notDots, step.2⟩
  · rintro ⟨kept, names⟩
    have notTarget : above ≠ ip := by
      rintro rfl
      exact unlink.not_names tree names
    exact ⟨(unlink.linkedDir_removedName tree).mpr ⟨notTarget, names.linked⟩, names.notDots,
      step_eq.trans ((if_neg kept).trans names.step)⟩

/-- The inode loses a link, and so does the parent of a directory. -/
theorem links_removedName (nonzero : target ≠ 0) :
    links (removedName state dp slot ip dir inode) target + (if target = ip then 1 else 0) +
        (if inode.type = .dir ∧ target = dp then 1 else 0) = links state target := by
  have directory := tree.directory unlink.readDir unlink.isDir
  have changed : links (removedName state dp slot ip dir inode) target + _ + _ = _ :=
    links_both (inode?_lt unlink.readDir) (inode?_lt unlink.read) unlink.distinct.symm target
  have parentDir : (lessParent dir inode slot).type = .dir := unlink.isDir
  have removed : naming dp dir.entries target =
      naming dp (lessParent dir inode slot).entries target + if target = ip then 1 else 0 :=
    naming_remove directory.unique (fun dot => unlink.notDots (.inl dot)) unlink.slot_eq
      unlink.target dp nonzero
  rw [unlink.readDir, linksIn_of_dir unlink.isDir (unlink.pos tree),
    linksIn_of_dir parentDir (unlink.nlink_lessParent tree).2, unlink.read] at changed
  by_cases inodeDir : inode.type = .dir
  · have one := unlink.nlink_target tree inodeDir
    have less := unlink.nlink_less tree
    obtain ⟨-, up, -⟩ := tree.single (unlink.names tree) ⟨inode, unlink.read, inodeDir⟩
    rw [child_of_inode unlink.read inodeDir] at up
    have gone : linksIn ip (some { inode with nlink := toShort (inode.nlink - 1) }) target = 0 :=
      linksIn_of_unlinked (less.trans (by omega)) ip target
    rw [gone, linksIn_of_dir inodeDir (by omega),
      (tree.directory unlink.read inodeDir).naming_of_empty (unlink.empty inodeDir) up
        nonzero] at changed
    simp only [inodeDir, true_and]
    omega
  · have file : linksIn ip (some { inode with nlink := toShort (inode.nlink - 1) }) target = 0 :=
      if_neg fun linkedDir => inodeDir linkedDir.1
    rw [file, linksIn_of_not_dir inodeDir] at changed
    simp only [inodeDir, false_and, if_false]
    omega

end

end UnlinkAt

/-- Removing a name keeps the tree. -/
theorem Tree.remove {dp slot ip : Nat} (tree : Tree state)
    (unlink : UnlinkAt state dp slot ip dir inode name) :
    Tree (removedName state dp slot ip dir inode) := by
  have directory := tree.directory unlink.readDir unlink.isDir
  have up_eq (other : Nat) : child (removedName state dp slot ip dir inode) other dotDotName =
      child state other dotDotName := by
    rw [unlink.child_removedName directory.unique, if_neg]
    rintro ⟨-, rfl⟩
    exact unlink.notDots (.inr rfl)
  have parentLinks := unlink.nlink_lessParent tree
  have targetLinks := unlink.nlink_less tree
  refine ⟨?_, ?_, ?_, ?_, ?_, ?_, ?_, ?_⟩
  · rw [UnlinkAt.inode?_removedName_ne (tree.nonzero unlink.readDir) (tree.nonzero unlink.read),
      tree.zero]
  · intro other found read isDir
    rcases unlink.inode?_removedName_cases read with ⟨rfl, rfl⟩ | ⟨rfl, rfl⟩ | before
    · exact directory.remove unlink.notDots unlink.slot_eq unlink.target rfl
    · obtain ⟨unique, dots⟩ := tree.directory unlink.read isDir
      exact ⟨unique, dots⟩
    · exact tree.directory before isDir
  · intro other found read isDir noLinks
    rcases unlink.inode?_removedName_cases read with ⟨rfl, rfl⟩ | ⟨rfl, rfl⟩ | before
    · exact absurd noLinks (Int.ne_of_gt parentLinks.2)
    · exact unlink.empty isDir
    · exact tree.emptied before isDir noLinks
  · intro target nonzero
    have before := tree.counted target nonzero
    have fewer := unlink.links_removedName tree nonzero
    by_cases atTarget : ip = target
    · subst atTarget
      rw [unlink.read, nlinkOf] at before
      rw [if_pos rfl, if_neg (fun parent => unlink.distinct parent.2)] at fewer
      have less : nlinkOf (some { inode with nlink := toShort (inode.nlink - 1) }) =
          inode.nlink - 1 := targetLinks
      rw [unlink.inode?_removedName_target]
      omega
    · rw [if_neg (Ne.symm atTarget)] at fewer
      by_cases atParent : dp = target
      · subst atParent
        rw [unlink.readDir, nlinkOf] at before
        rw [unlink.inode?_removedName_parent, nlinkOf, parentLinks.1]
        by_cases inodeDir : inode.type = .dir
        · rw [if_pos ⟨inodeDir, rfl⟩] at fewer
          rw [if_pos inodeDir]
          omega
        · rw [if_neg (fun parent => inodeDir parent.1)] at fewer
          rw [if_neg inodeDir]
          omega
      · rw [if_neg (fun parent => atParent parent.2.symm)] at fewer
        rw [UnlinkAt.inode?_removedName_ne atParent atTarget]
        omega
  · intro other found read
    rcases unlink.inode?_removedName_cases read with ⟨rfl, rfl⟩ | ⟨rfl, rfl⟩ | before
    · have short := tree.short unlink.readDir
      rw [parentLinks.1]
      split <;> omega
    · have short := tree.short unlink.read
      refine Int.lt_of_le_of_lt (Int.le_of_eq targetLinks) ?_
      omega
    · exact tree.short before
  · refine ⟨(unlink.linkedDir_removedName tree).mpr ⟨?_, tree.root.1⟩,
      (up_eq rootino).trans tree.root.2⟩
    rintro rfl
    exact (tree.single (unlink.names tree) tree.root.1.isDir).1 rfl
  · intro other linked notRoot
    obtain ⟨notTarget, linked⟩ := (unlink.linkedDir_removedName tree).mp linked
    obtain ⟨above, otherName, up, names⟩ := tree.parent linked notRoot
    refine ⟨above, otherName, (up_eq other).trans up,
      (unlink.names_removedName tree).mpr ⟨?_, names⟩⟩
    rintro ⟨rfl, rfl⟩
    exact notTarget (some.inj (names.step.symm.trans unlink.child_eq))
  · intro above otherName other names isDir
    rw [unlink.isDir_removedName] at isDir
    obtain ⟨-, names⟩ := (unlink.names_removedName tree).mp names
    obtain ⟨notRoot, up, only⟩ := tree.single names isDir
    exact ⟨notRoot, (up_eq other).trans up, fun another anotherNames =>
      only another ((unlink.names_removedName tree).mp anotherNames).2⟩

end XEditor.Kernel
