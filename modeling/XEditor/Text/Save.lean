import XEditor.Kernel.Create
import XEditor.Kernel.Write
import XEditor.Text.Frame

/-!
# Saving a text

`textframe_write` on the kernel state.  It removes the old file first and then
writes row after row, so a call that fails has already lost what was there.
-/

namespace XEditor.Text

open List Option Kernel Kernel.State

/-- The write of a line break behind every row but the last one; its result is
not looked at. -/
def writeBreak (state : State) (fd : Int) (fault : Option Nat) (rest : List Row) :
    Option State :=
  if rest = [] then some state else (sysWrite state fd [lineFeed] fault).map Prod.fst

/-- The loop of `textframe_write`.  Calls of `write` are numbered, two for each
row, to name their faults. -/
def writeLoop (fd : Int) (faults : Nat → Option Nat) :
    (call : Nat) → (state : State) → (rows : List Row) → Option (State × Int)
  | _, state, [] => some (state, 0)
  | call, state, row :: rest => do
    let (state, len) ← sysWrite state fd row (faults call)
    if len < 0 then some (state, -1)
    else do
      let state ← writeBreak state fd (faults (call + 1)) rest
      writeLoop fd faults (call + 2) state rest

/-- Source `textframe_write`. -/
def textframeWrite (state : State) (faults : Nat → Option Nat) (text : Textframe)
    (filename : Path) : Option (State × Textframe × Int) := do
  let (state, _) ← sysUnlink state filename
  let (state, fd) ← sysOpen state filename (oCreate ||| oWronly)
  if fd < 0 then some (state, text, -1)
  else do
    let (state, code) ← writeLoop fd faults 0 state text.data
    if code < 0 then some (state, text, -1)
    else some ((sysClose state fd).1, { text with maxrowCapacity := text.maxrow }, 0)

/-! ## The writes -/

/-- Whether every row is written, when the rows go to the end of a file. -/
def rowsStored (faults : Nat → Option Nat) :
    (call : Nat) → (content : List UInt8) → (rows : List Row) → Bool
  | _, _, [] => true
  | call, content, row :: rest =>
    let written := writeCall (faults call) content content.length row
    let ended :=
      if rest = [] then written
      else writeCall (faults (call + 1)) written.content written.content.length [lineFeed]
    written.ok && rowsStored faults (call + 2) ended.content rest

/-- What `textframe_write` opens. -/
def writer (ip off : Nat) : OpenFile where
  inum := ip
  off := off
  readable := false
  writable := true

/-- A descriptor is open for writing at the end of a regular file. -/
structure Appending (state : State) (fd ip : Nat) (inode : Inode) : Prop where
  opened : state.ofile[fd]? = some (some (writer ip inode.content.length))
  read : state.inode? ip = some inode
  isFile : inode.type = .file

variable {inode : Inode} {faults : Nat → Option Nat}

variable {state after : State} {ip fd : Nat} {saved text : Textframe}

/-- A call of `write` goes on appending. -/
theorem Appending.sysWrite (appending : Appending state fd ip inode) (bytes : List UInt8)
    (fault : Option Nat) :
    ∃ next, Kernel.sysWrite state fd bytes fault =
        some (next, if (writeCall fault inode.content inode.content.length bytes).ok then
          (bytes.length : Int) else -1) ∧
      Appending next fd ip { inode with
        content := (writeCall fault inode.content inode.content.length bytes).content } := by
  obtain ⟨bound, -⟩ := List.getElem?_eq_some_iff.mp appending.opened
  have file : state.file? fd = some (writer ip inode.content.length) := by
    rw [State.file?, Int.toNat_natCast, appending.opened]
    rfl
  rw [Kernel.sysWrite, file]
  simp only [writer, Bool.true_eq_false, if_false, appending.read, bind_eq_bind,
    bind_some, if_pos appending.isFile, Int.toNat_natCast]
  refine ⟨_, rfl, ?_, ?_, appending.isFile⟩
  · rw [writeCall_end_off]
    exact getElem?_set_self bound
  · exact inode?_setInode_self appending.read _

/-- The writing loop runs to its end, or stops at the first row that fails, with
the descriptor still open. -/
theorem Appending.writeLoop {rows : List Row} {call : Nat}
    (appending : Appending state fd ip inode) :
    ∃ next inode', Text.writeLoop fd faults call state rows =
        some (next, if rowsStored faults call inode.content rows then 0 else -1) ∧
      Appending next fd ip inode' := by
  induction rows generalizing call state inode with
  | nil => exact ⟨state, inode, rfl, appending⟩
  | cons row rest ih =>
    obtain ⟨afterRow, rowCall, rowAppending⟩ := appending.sysWrite row (faults call)
    rw [Text.writeLoop, rowCall, rowsStored]
    cases stored : (writeCall (faults call) inode.content inode.content.length row).ok with
    | false => exact ⟨afterRow, _, rfl, rowAppending⟩
    | true =>
      simp only [bind_eq_bind, bind_some, if_true, if_neg (natCast_not_neg _), Bool.true_and]
      by_cases last : rest = []
      · subst last
        exact ⟨afterRow, _, rfl, rowAppending⟩
      obtain ⟨afterBreak, breakCall, breakAppending⟩ :=
        rowAppending.sysWrite [lineFeed] (faults (call + 1))
      simp only [writeBreak, if_neg last, breakCall, map_some, bind_some]
      exact ih breakAppending

/-! ## What a failed call leaves behind -/

/-- The file table and the process have room for another open file. -/
def HasDescriptor (state : State) : Prop :=
  state.ofile.any Option.isNone = true ∧ state.ftableFree ≠ 0

instance (state : State) : Decidable (HasDescriptor state) :=
  inferInstanceAs (Decidable (_ ∧ _))

/-- The named file has some content, and the same descriptors are open. -/
def SaveIntact (before after : State) (filename : Path) (content : List UInt8) : Prop :=
  (∃ ip inode, namei after filename = some (some ip) ∧ after.inode? ip = some inode ∧
    inode.content = content) ∧ after.ofile = before.ofile

/-- Opening a new file either fails and leaves it empty, or gives a descriptor
at its end. -/
theorem openInode_cases (state : State) (ip : Nat) :
    (¬ HasDescriptor state ∧
      openInode state ip (oCreate ||| oWronly) = (state.iput ip, -1)) ∨
    ∃ fd : Nat, state.ofile[fd]? = some none ∧ HasDescriptor state ∧
      openInode state ip (oCreate ||| oWronly) =
        ({ state with
          ofile := state.ofile.set fd (some (writer ip 0))
          ftableFree := state.ftableFree - 1 }, (fd : Int)) := by
  rw [openInode, HasDescriptor]
  cases free : state.ofile.findIdx? Option.isNone with
  | none =>
    refine .inl ⟨?_, rfl⟩
    rintro ⟨room, -⟩
    rw [List.any_eq_true] at room
    obtain ⟨slot, mem, isFree⟩ := room
    rw [findIdx?_eq_none_iff] at free
    rw [free slot mem] at isFree
    contradiction
  | some fd =>
    obtain ⟨bound, isFree, -⟩ := List.findIdx?_eq_some_iff_getElem.mp free
    by_cases full : state.ftableFree = 0
    · refine .inl ⟨fun room => room.2 full, ?_⟩
      simp only [if_pos full]
    refine .inr ⟨fd, ?_, ⟨?_, full⟩, ?_⟩
    · rw [getElem?_eq_getElem bound, isNone_iff_eq_none.mp isFree]
    · rw [List.any_eq_true]
      exact ⟨_, getElem_mem bound, isFree⟩
    · simp only [if_neg full]
      rfl

/-- A new file in the place of the old one has the old content only if that was
empty. -/
theorem saveIntact_new_file_iff {removed : State} {new dp : Nat} {dir : Inode} {name : Name}
    {filename : Path} (enters : Enters removed new dp newFile dir name)
    (parent_eq : nameiparent removed filename = some (some (dp, name)))
    (sameProcess : removed = { state with inodes := removed.inodes }) (content : List UInt8) :
    SaveIntact state (entered removed new dp newFile dir name) filename content ↔ content = [] := by
  have named := enters.namei_entered parent_eq
  constructor
  · rintro ⟨⟨ip, inode, namedToo, read, content_eq⟩, -⟩
    have new_eq : new = ip := by
      have := named.symm.trans namedToo
      rwa [some.injEq, some.injEq] at this
    rw [← new_eq, enters.inode?_file, some.injEq] at read
    rw [← content_eq, ← read]
    rfl
  · intro empty
    refine ⟨⟨new, newFile, named, enters.inode?_file, empty.symm⟩, ?_⟩
    rw [sameProcess]
    rfl

/-- `textframe_write` behind a call of `open` that gave a descriptor. -/
def saveRows (state : State) (faults : Nat → Option Nat) (text : Textframe) (fd : Int) :
    Option (State × Textframe × Int) := do
  let (state, code) ← writeLoop fd faults 0 state text.data
  if code < 0 then some (state, text, -1)
  else some ((sysClose state fd).1, { text with maxrowCapacity := text.maxrow }, 0)

/-- On an existing file `textframe_write` puts an empty file in its place before
it takes a descriptor. -/
theorem textframeWrite_replaces (wf : state.WellFormed) {filename : Path} {code : Int}
    (named : namei state filename = some (some ip)) (read : state.inode? ip = some inode)
    (isFile : inode.type = .file)
    (called : textframeWrite state faults text filename = some (after, saved, code)) :
    ∃ removed new dp dir name opened fd, Enters removed new dp newFile dir name ∧
      nameiparent removed filename = some (some (dp, name)) ∧
      removed = { state with inodes := removed.inodes } ∧
      openInode (entered removed new dp newFile dir name) new (oCreate ||| oWronly) =
        (opened, fd) ∧
      (if fd < 0 then some (opened, text, -1) else saveRows opened faults text fd) =
        some (after, saved, code) := by
  have notDir : inode.type ≠ .dir := by
    rw [isFile]
    exact FileType.noConfusion
  obtain ⟨removed, dp, name, dir, unlinkCall, sameProcess, parent_eq, readDir, isDir, fresh,
    parentHeld⟩ := sysUnlink_frees_name wf named read notDir
  rw [textframeWrite, unlinkCall] at called
  simp only [bind_eq_bind, bind_some] at called
  obtain ⟨⟨opened, fd⟩, openCall, written⟩ := bind_eq_some_iff.mp called
  obtain ⟨⟨made, found⟩, createCall, openCall⟩ := bind_eq_some_iff.mp openCall
  obtain ⟨new, rfl, enters, rfl⟩ := create_fresh parent_eq readDir isDir fresh createCall
  have inUse : dir.nlink = 0 → removed.referenced dp = true := by
    intro noLinks
    rw [sameProcess]
    exact Bool.or_eq_true_iff.mpr (.inr (parentHeld noLinks))
  rw [enters.iput_parent inUse, some.injEq] at openCall
  exact ⟨removed, new, dp, dir, name, opened, fd, enters, parent_eq, sameProcess, openCall, written⟩

/-- Once a descriptor is taken the call fails exactly when a row is not written,
and then the descriptor stays open. -/
theorem saveRows_failure_iff {opened : State} (appending : Appending opened fd ip inode)
    (free : state.ofile[fd]? = some none) {code : Int}
    (called : saveRows opened faults text fd = some (after, saved, code)) (filename : Path)
    (content : List UInt8) :
    (code = -1 → SaveIntact state after filename content) ↔
      rowsStored faults 0 inode.content text.data = true := by
  obtain ⟨next, inode', loop, stillOpen⟩ := appending.writeLoop
  rw [saveRows, loop] at called
  cases stored : rowsStored faults 0 inode.content text.data with
  | true =>
    rw [stored] at called
    obtain ⟨-, -, rfl⟩ := called
    exact iff_of_true (fun impossible => absurd impossible (by decide)) rfl
  | false =>
    rw [stored] at called
    obtain ⟨rfl, -, rfl⟩ := called
    refine iff_of_false ?_ Bool.false_ne_true
    intro kept
    have leaked := stillOpen.opened
    rw [(kept rfl).2, free] at leaked
    simp at leaked

/-- When `textframe_write` fails on an existing file, the file keeps its content
and no descriptor stays open exactly when it fails for want of a descriptor and
the file was empty.  It fails for no other reason if every row is written. -/
theorem textframeWrite_failure_keeps_file_iff {state after : State} (wf : state.WellFormed)
    {faults : Nat → Option Nat} {text saved : Textframe} {filename : Path} {ip : Nat}
    {inode : Inode} {code : Int} (named : namei state filename = some (some ip))
    (read : state.inode? ip = some inode) (isFile : inode.type = .file)
    (called : textframeWrite state faults text filename = some (after, saved, code)) :
    (code = -1 → SaveIntact state after filename inode.content) ↔
      if HasDescriptor state then rowsStored faults 0 [] text.data = true
      else inode.content = [] := by
  obtain ⟨removed, new, dp, dir, name, opened, fd, enters, parent_eq, sameProcess, openCall,
    written⟩ := textframeWrite_replaces wf named read isFile called
  have room : HasDescriptor (entered removed new dp newFile dir name) ↔ HasDescriptor state := by
    rw [sameProcess]
    rfl
  rcases openInode_cases (entered removed new dp newFile dir name) new with
    ⟨noRoom, failed⟩ | ⟨slot, free, hasRoom, succeeded⟩
  · rw [if_neg (fun hasRoom => noRoom (room.mpr hasRoom))]
    rw [failed, enters.iput_file] at openCall
    obtain ⟨rfl, rfl⟩ := openCall
    obtain ⟨rfl, rfl, rfl⟩ := written
    rw [forall_prop_of_true rfl]
    exact saveIntact_new_file_iff enters parent_eq sameProcess _
  · rw [if_pos (room.mp hasRoom)]
    rw [succeeded] at openCall
    obtain ⟨rfl, rfl⟩ := openCall
    have bound := (List.getElem?_eq_some_iff.mp free).1
    have stateFree : state.ofile[slot]? = some none := by
      rw [sameProcess] at free
      exact free
    have appending : Appending { entered removed new dp newFile dir name with
        ofile := (entered removed new dp newFile dir name).ofile.set slot (some (writer new 0))
        ftableFree := (entered removed new dp newFile dir name).ftableFree - 1 }
        slot new newFile :=
      ⟨getElem?_set_self bound, enters.inode?_file, rfl⟩
    exact saveRows_failure_iff appending stateFree written filename inode.content

/-- A text of one row. -/
def oneRow : Textframe where
  data := [[121]]
  cursorRow := 0
  cursorCol := 0
  maxrowCapacity := 1

theorem save_with_descriptor :
    HasDescriptor (twoFiles 100) ∧ rowsStored (fun _ => none) 0 [] oneRow.data = true ∧
      ∃ after saved code, textframeWrite (twoFiles 100) (fun _ => none) oneRow [97] =
          some (after, saved, code) ∧
        (code = -1 → SaveIntact (twoFiles 100) after [97] [120]) := by
  have room : HasDescriptor (twoFiles 100) := by decide
  have stored : rowsStored (fun _ => none) 0 [] oneRow.data = true := by decide
  have returns : (textframeWrite (twoFiles 100) (fun _ => none) oneRow [97]).isSome = true := by
    decide
  obtain ⟨⟨after, saved, code⟩, called⟩ := isSome_iff_exists.mp returns
  refine ⟨room, stored, after, saved, code, called, ?_⟩
  have keeps := textframeWrite_failure_keeps_file_iff twoFiles_wellFormed
    (show namei (twoFiles 100) [97] = some (some 2) by decide)
    (show (twoFiles 100).inode? 2 = some ⟨.file, 1, [], [120]⟩ from rfl) rfl called
  exact keeps.mpr stored

/-- With a full file table a save empties the file and fails. -/
theorem save_without_descriptor_loses_content :
    ∃ after saved, textframeWrite (twoFiles 0) (fun _ => none) oneRow [97] =
        some (after, saved, -1) ∧
      ¬ SaveIntact (twoFiles 0) after [97] [120] := by
  have result : (textframeWrite (twoFiles 0) (fun _ => none) oneRow [97]).map (fun result =>
      (namei result.1 [97], (result.1.inode? 2).map Inode.content, result.2.2)) =
        some (some (some 2), some [], -1) := by
    decide
  obtain ⟨⟨after, saved, code⟩, called, result⟩ := map_eq_some_iff.mp result
  simp only [Prod.mk.injEq] at result
  obtain ⟨named, content, rfl⟩ := result
  refine ⟨after, saved, called, ?_⟩
  rintro ⟨⟨ip, inode, namedToo, read, content_eq⟩, -⟩
  obtain rfl : 2 = ip := by
    have := named.symm.trans namedToo
    rwa [some.injEq, some.injEq] at this
  rw [read, map_some, content_eq] at content
  contradiction

end XEditor.Text
