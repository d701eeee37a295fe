import XEditor.Kernel.FileTable

/-!
# Reference counts of the file table

Between system calls the count of every entry of the file table is the number of
descriptors that point at it.  While a call runs, the code itself has further
references in hand: an entry that `filealloc` returned, or one taken out of a
descriptor.  Each function keeps the counts exact for what is then in hand, and a
call that returns has nothing in hand.
-/

namespace XEditor.Kernel.FileTable

open List Option Function References

variable {after : Tables} {f : FilePtr}

namespace Tables

/-- The reference counts. -/
def refs (tables : Tables) (f : FilePtr) : Nat :=
  (tables.file f).ref

/-- The descriptors of all processes. -/
def slots (tables : Tables) (slot : ProcPtr × Fd) : Option FilePtr :=
  (tables.proc slot.1).ofile slot.2

/-- The counts are exact for the descriptors and what is in hand. -/
abbrev Counted (tables : Tables) (held : Multiset FilePtr) : Prop :=
  References.Exact tables.refs tables.slots held

/-- Only processes that run have descriptors. -/
def Idle (tables : Tables) : Prop :=
  ∀ p, (tables.proc p).state ≠ .runnable → ∀ fd, tables.slots (p, fd) = none

variable (tables : Tables)

section

variable (f : FilePtr) (file : File)

@[simp]
theorem refs_setFile : (tables.setFile f file).refs = update tables.refs f file.ref := by
  funext other
  by_cases same : other = f
  · subst same
    simp [refs, setFile]
  · simp [refs, setFile, same]

@[simp]
theorem slots_setFile : (tables.setFile f file).slots = tables.slots :=
  rfl

@[simp]
theorem proc_setFile : (tables.setFile f file).proc = tables.proc :=
  rfl

end

section

variable (p : ProcPtr) (state : ProcState)

@[simp]
theorem slots_setStatus (parent : Option ProcPtr) :
    (tables.setStatus p state parent).slots = tables.slots := by
  funext slot
  by_cases same : slot.1 = p
  · simp [slots, setStatus, setProc, same]
  · simp [slots, setStatus, setProc, same]

theorem state_setStatus (p other : ProcPtr) (state : ProcState) (parent : Option ProcPtr) :
    ((tables.setStatus p state parent).proc other).state =
      if other = p then state else (tables.proc other).state := by
  by_cases same : other = p
  · subst same
    simp [setStatus, setProc]
  · simp [setStatus, setProc, same]

@[simp]
theorem slots_setState : (tables.setState p state).slots = tables.slots :=
  tables.slots_setStatus p state _

end

theorem state_setState (p other : ProcPtr) (state : ProcState) :
    ((tables.setState p state).proc other).state =
      if other = p then state else (tables.proc other).state :=
  tables.state_setStatus p other state _

@[simp]
theorem refs_setFd (p : ProcPtr) (fd : Fd) (f : Option FilePtr) :
    (tables.setFd p fd f).refs = tables.refs :=
  rfl

@[simp]
theorem slots_setFd (p : ProcPtr) (fd : Fd) (f : Option FilePtr) :
    (tables.setFd p fd f).slots = update tables.slots (p, fd) f := by
  funext slot
  obtain ⟨other, otherFd⟩ := slot
  by_cases same : other = p
  · subst same
    by_cases sameFd : otherFd = fd
    · subst sameFd
      simp [slots, setFd, setProc]
    · simp [slots, setFd, setProc, sameFd]
  · simp [slots, setFd, setProc, same]

@[simp]
theorem state_setFd (p other : ProcPtr) (fd : Fd) (f : Option FilePtr) :
    ((tables.setFd p fd f).proc other).state = (tables.proc other).state := by
  by_cases same : other = p
  · subst same
    simp [setFd, setProc]
  · simp [setFd, setProc, same]

variable {tables}

/-- A process that runs may change its descriptors. -/
theorem Idle.of_slots {proc : ProcPtr} (idle : tables.Idle)
    (live : (tables.proc proc).state = .runnable)
    (states : ∀ p, (after.proc p).state = (tables.proc p).state)
    (others : ∀ p fd, p ≠ proc → after.slots (p, fd) = tables.slots (p, fd)) : after.Idle := by
  intro p notRunning fd
  rw [states] at notRunning
  have distinct : p ≠ proc := fun same => notRunning (same ▸ live)
  rw [others p fd distinct]
  exact idle p notRunning fd

end Tables

open Tables

variable {tables : Tables} {proc : ProcPtr} {held : Multiset FilePtr}

/-! ## Files and descriptors -/

/-- `filealloc` changes nothing, or returns an entry with the only reference. -/
theorem filealloc_cases (counted : tables.Counted held) :
    filealloc tables = (tables, none) ∨
      ∃ f file, filealloc tables = (tables.setFile f file, some f) ∧
        (tables.setFile f file).Counted (f ::ₘ held) := by
  unfold filealloc
  cases found : (List.finRange nfile).find? fun f => (tables.file f).ref == 0 with
  | none => exact .inl rfl
  | some f =>
    have isFree := find?_some found
    have unused : tables.refs f = 0 := beq_iff_eq.mp isFree
    refine .inr ⟨f, { tables.file f with ref := 1 }, rfl, ?_⟩
    have taken := counted.hold f
    rw [unused, Nat.zero_add] at taken
    rw [Counted, refs_setFile]
    exact taken

/-- `filedup` takes another reference to an entry that is in use. -/
theorem filedup_counted (counted : tables.Counted held) (used : 1 ≤ tables.refs f) :
    ∃ file, filedup tables f = .ok (tables.setFile f file) ∧
      (tables.setFile f file).Counted (f ::ₘ held) := by
  refine ⟨_, if_neg (Nat.not_lt.mpr used), ?_⟩
  rw [Counted, refs_setFile]
  exact counted.hold f

/-- An entry after `fileclose`. -/
def closed (file : File) : File :=
  if file.ref - 1 > 0 then { file with ref := file.ref - 1 }
  else { file with ref := 0, type := .none }

theorem closed_ref (file : File) : (closed file).ref = file.ref - 1 := by
  unfold closed
  split
  · rfl
  · rename_i last
    exact (Nat.eq_zero_of_not_pos last).symm

theorem fileclose_eq (used : 1 ≤ tables.refs f) :
    fileclose tables f = .ok (tables.setFile f (closed (tables.file f))) := by
  have notUnused : ¬ (tables.file f).ref < 1 := Nat.not_lt.mpr used
  rw [fileclose, if_neg notUnused, closed]
  split
  · rfl
  · rfl

/-- `fileclose` gives up a reference in hand. -/
theorem fileclose_counted (counted : tables.Counted (f ::ₘ held)) :
    ∃ file, fileclose tables f = .ok (tables.setFile f file) ∧
      (tables.setFile f file).Counted held := by
  refine ⟨_, fileclose_eq counted.pos_of_held, ?_⟩
  rw [Counted, refs_setFile, closed_ref]
  exact counted.release

theorem closeBoth_counted {f0 f1 : FilePtr} (counted : tables.Counted (f0 ::ₘ f1 ::ₘ held)) :
    ∃ after, closeBoth tables f0 f1 = .ok after ∧ after.proc = tables.proc ∧
      after.Counted held := by
  obtain ⟨file0, closed0, counted0⟩ := fileclose_counted counted
  obtain ⟨file1, closed1, counted1⟩ := fileclose_counted counted0
  refine ⟨(tables.setFile f0 file0).setFile f1 file1, ?_, rfl, counted1⟩
  rw [closeBoth, closed0]
  exact closed1

/-- `fdalloc` changes nothing, or puts the reference in hand in a free
descriptor. -/
theorem fdalloc_cases (f : FilePtr) :
    fdalloc tables proc f = (tables, none) ∨
      ∃ fd, tables.slots (proc, fd) = none ∧
        fdalloc tables proc f = (tables.setFd proc fd (some f), some fd) := by
  unfold fdalloc
  cases found : (List.finRange nofile).find? fun fd =>
      ((tables.proc proc).ofile fd).isNone with
  | none => exact .inl rfl
  | some fd =>
    have isFree := find?_some found
    exact .inr ⟨fd, isNone_iff_eq_none.mp isFree, rfl⟩

theorem Tables.Counted.setFd {fd : Fd} (counted : tables.Counted (f ::ₘ held))
    (free : tables.slots (proc, fd) = none) : (tables.setFd proc fd (some f)).Counted held := by
  rw [Counted, slots_setFd]
  exact counted.store free

/-- The other fields of an entry do not matter. -/
theorem Tables.Counted.setFile {file : File} (counted : tables.Counted held)
    (ref_eq : file.ref = tables.refs f) : (tables.setFile f file).Counted held := by
  rw [Counted, refs_setFile, ref_eq, update_eq_self]
  exact counted

theorem slot_of_argfd {fd : Int} {slot : Fd} (found : argfd tables proc fd = some (slot, f)) :
    tables.slots (proc, slot) = some f := by
  unfold argfd at found
  split at found
  · obtain ⟨file, read, pair⟩ := map_eq_some_iff.mp found
    obtain ⟨rfl, rfl⟩ := Prod.mk.inj pair
    exact read
  · contradiction

/-! ## System calls -/

/-- The tables between two system calls. -/
structure Consistent (tables : Tables) : Prop where
  counted : tables.Counted 0
  idle : tables.Idle

/-- A call returns with consistent tables, and with the old descriptors if it
fails. -/
def Settles (tables : Tables) (outcome : Outcome) : Prop :=
  ∃ after result, outcome = .ok (after, result) ∧ Consistent after ∧
    (result = none → after.slots = tables.slots)

theorem Consistent.fails (consistent : Consistent tables) : Settles tables (.ok (tables, none)) :=
  ⟨tables, none, rfl, consistent, fun _ => rfl⟩

/-- A call of a running process that changes no state and no descriptor of
another process. -/
theorem Consistent.settles {result : Option Nat} (consistent : Consistent tables)
    (live : (tables.proc proc).state = .runnable) (counted : after.Counted 0)
    (states : ∀ p, (after.proc p).state = (tables.proc p).state)
    (others : ∀ p fd, p ≠ proc → after.slots (p, fd) = tables.slots (p, fd))
    (failed : result = none → after.slots = tables.slots) :
    Settles tables (.ok (after, result)) :=
  ⟨after, result, rfl, ⟨counted, consistent.idle.of_slots live states others⟩, failed⟩

/-- A call that fails with the old descriptors. -/
theorem Consistent.fails_with (consistent : Consistent tables) (counted : after.Counted 0)
    (states : ∀ p, (after.proc p).state = (tables.proc p).state)
    (sameSlots : after.slots = tables.slots) : Settles tables (.ok (after, none)) := by
  refine ⟨after, none, rfl, ⟨counted, ?_⟩, fun _ => sameSlots⟩
  intro p notRunning fd
  rw [sameSlots]
  rw [states] at notRunning
  exact consistent.idle p notRunning fd

theorem slots_eq_of_proc (sameProcs : after.proc = tables.proc) : after.slots = tables.slots := by
  funext slot
  rw [slots, sameProcs, slots]

section

variable (consistent : Consistent tables) (live : (tables.proc proc).state = .runnable)

include consistent live

theorem sysDup_settles (fd : Int) : Settles tables (sysDup tables proc fd) := by
  unfold sysDup
  cases found : argfd tables proc fd with
  | none => exact consistent.fails
  | some place =>
    obtain ⟨slot, f⟩ := place
    rcases @fdalloc_cases tables proc f with full | ⟨fd, free, allocated⟩
    · simp only [full]
      exact consistent.fails
    have used : 1 ≤ tables.refs f := consistent.counted.pos_of_slot (slot_of_argfd found)
    have dup : filedup (tables.setFd proc fd (some f)) f = .ok _ :=
      if_neg (Nat.not_lt.mpr used)
    simp only [allocated, dup]
    refine consistent.settles live ?_ (fun p => by simp) ?_ nofun
    · rw [Counted, refs_setFile, slots_setFile, slots_setFd]
      exact (consistent.counted.hold f).store free
    · intro p otherFd distinct
      simp [distinct]

theorem sysClose_settles (fd : Int) : Settles tables (sysClose tables proc fd) := by
  unfold sysClose
  cases found : argfd tables proc fd with
  | none => exact consistent.fails
  | some place =>
    obtain ⟨slot, f⟩ := place
    have taken : (tables.setFd proc slot none).Counted (f ::ₘ 0) := by
      rw [Counted, slots_setFd]
      exact consistent.counted.take (slot_of_argfd found)
    obtain ⟨file, closed, counted⟩ := fileclose_counted taken
    simp only [closed]
    refine consistent.settles live counted (fun p => by simp) ?_ nofun
    intro p otherFd distinct
    simp [distinct]

theorem sysOpen_settles (ip : Option Nat) (omode : BitVec 32) :
    Settles tables (sysOpen tables proc ip omode) := by
  unfold sysOpen
  cases ip with
  | none => exact consistent.fails
  | some ip =>
    rcases filealloc_cases consistent.counted with full | ⟨f, file, allocated, inHand⟩
    · simp only [full]
      exact consistent.fails
    simp only [allocated]
    rcases @fdalloc_cases (tables.setFile f file) proc f with full | ⟨fd, free, placed⟩
    · obtain ⟨closedFile, closed, counted⟩ := fileclose_counted inHand
      simp only [full, closed]
      exact consistent.settles live counted (fun _ => rfl) (fun _ _ _ => rfl) fun _ => rfl
    · simp only [placed]
      refine consistent.settles live ((inHand.setFd free).setFile rfl) (fun p => by simp) ?_
        nofun
      intro p otherFd distinct
      simp [distinct]

omit live in
/-- `pipealloc` changes no count, or has two entries in hand. -/
theorem pipealloc_cases (page : Option Nat) :
    (∃ after, pipealloc tables page = .ok (after, none) ∧ after.proc = tables.proc ∧
      after.Counted 0) ∨
    ∃ after rf wf, pipealloc tables page = .ok (after, some (rf, wf)) ∧
      after.proc = tables.proc ∧ after.Counted (rf ::ₘ wf ::ₘ 0) := by
  unfold pipealloc
  rcases filealloc_cases consistent.counted with full | ⟨f0, file0, allocated0, inHand0⟩
  · simp only [full]
    exact .inl ⟨tables, rfl, rfl, consistent.counted⟩
  simp only [allocated0]
  rcases filealloc_cases inHand0 with full | ⟨f1, file1, allocated1, inHand1⟩
  · obtain ⟨closedFile, closed, counted⟩ := fileclose_counted inHand0
    simp only [full, closed]
    exact .inl ⟨_, rfl, rfl, counted⟩
  simp only [allocated1]
  rw [Multiset.cons_swap] at inHand1
  cases page with
  | none =>
    obtain ⟨after, closed, sameProcs, counted⟩ := closeBoth_counted inHand1
    simp only [closed]
    exact .inl ⟨after, rfl, sameProcs, counted⟩
  | some page =>
    refine .inr ⟨_, f0, f1, rfl, rfl, ?_⟩
    apply Tables.Counted.setFile
    · exact inHand1.setFile rfl
    · rfl

theorem sysPipe_settles (valid : Bool) (page : Option Nat) :
    Settles tables (sysPipe tables proc valid page) := by
  unfold sysPipe
  cases valid with
  | false => exact consistent.fails
  | true =>
    rcases pipealloc_cases consistent page with
      ⟨after, failed, sameProcs, counted⟩ | ⟨opened, rf, wf, allocated, sameProcs, inHand⟩
    · simp only [failed, if_true]
      exact consistent.fails_with counted (fun p => by rw [sameProcs]) (slots_eq_of_proc sameProcs)
    have sameSlots := slots_eq_of_proc sameProcs
    simp only [allocated, if_true, bind, Except.bind]
    rcases @fdalloc_cases opened proc rf with full | ⟨fd0, free0, placed0⟩
    · obtain ⟨after, closed, closedProcs, counted⟩ := closeBoth_counted inHand
      have afterProcs := closedProcs.trans sameProcs
      simp only [full, closed]
      exact consistent.fails_with counted (fun p => by rw [afterProcs])
        (slots_eq_of_proc afterProcs)
    simp only [placed0]
    have inHand1 := inHand.setFd free0
    rcases @fdalloc_cases (opened.setFd proc fd0 (some rf)) proc wf with
      full | ⟨fd1, free1, placed1⟩
    · -- The first descriptor is taken back.
      have restored : ((opened.setFd proc fd0 (some rf)).setFd proc fd0 none).slots =
          opened.slots := by
        simp only [slots_setFd, update_idem]
        rw [← free0, update_eq_self]
      have inHandAgain : ((opened.setFd proc fd0 (some rf)).setFd proc fd0 none).Counted
          (rf ::ₘ wf ::ₘ 0) := by
        rw [Counted, restored]
        exact inHand
      obtain ⟨after, closed, closedProcs, counted⟩ := closeBoth_counted inHandAgain
      simp only [full, closed]
      refine consistent.fails_with counted ?_ ?_
      · intro p
        rw [closedProcs, state_setFd, state_setFd, sameProcs]
      · rw [slots_eq_of_proc closedProcs, restored, sameSlots]
    · simp only [placed1]
      refine consistent.settles live (inHand1.setFd free1) ?_ ?_ nofun
      · intro p
        rw [state_setFd, state_setFd, sameProcs]
      · intro p fd distinct
        simp [distinct, sameSlots]

omit consistent live in
/-- The loop of `fork`: the child gets the descriptors of its parent. -/
theorem forkFds_counted {np : ProcPtr} {fds : List Fd}
    (counted : tables.Counted 0) (empty : ∀ fd ∈ fds, tables.slots (np, fd) = none)
    (nodup : fds.Nodup) :
    ∃ after, forkFds proc np tables fds = .ok after ∧ after.Counted 0 ∧
      (∀ p, (after.proc p).state = (tables.proc p).state) ∧
      ∀ p fd, p ≠ np → after.slots (p, fd) = tables.slots (p, fd) := by
  induction fds generalizing tables with
  | nil => exact ⟨tables, rfl, counted, fun _ => rfl, fun _ _ _ => rfl⟩
  | cons fd fds ih =>
    obtain ⟨notMem, nodup⟩ := nodup_cons.mp nodup
    rw [forkFds]
    cases found : (tables.proc proc).ofile fd with
    | none => exact ih counted (fun other mem => empty other (mem_cons_of_mem fd mem)) nodup
    | some f =>
      have filled : tables.slots (proc, fd) = some f := found
      obtain ⟨file, dup, inHand⟩ := filedup_counted counted (counted.pos_of_slot filled)
      have placed := inHand.setFd (empty fd mem_cons_self)
      have restEmpty : ∀ other ∈ fds,
          ((tables.setFile f file).setFd np fd (some f)).slots (np, other) = none := by
        intro other mem
        have different : other ≠ fd := fun same => notMem (same ▸ mem)
        simp only [slots_setFd, slots_setFile]
        rw [update_of_ne (by simp [different])]
        exact empty other (mem_cons_of_mem fd mem)
      obtain ⟨after, loop, afterCounted, states, others⟩ := ih placed restEmpty nodup
      refine ⟨after, ?_, afterCounted, ?_, ?_⟩
      · simp only [dup]
        exact loop
      · intro p
        rw [states, state_setFd]
        rfl
      · intro p other notChild
        rw [others p other notChild]
        simp [notChild]

omit live in
theorem fork_settles (kstack pgdir : Bool) : Settles tables (fork tables proc kstack pgdir) := by
  unfold fork
  cases found : (List.finRange nproc).find? fun p => (tables.proc p).state == .unused with
  | none => exact consistent.fails
  | some np =>
    have isUnused := find?_some found
    have unused : (tables.proc np).state = .unused := beq_iff_eq.mp isUnused
    cases memory : kstack && pgdir with
    | false =>
      refine consistent.fails_with ?_ ?_ ?_
      · rw [Counted, slots_setState, slots_setState]
        exact consistent.counted
      · intro p
        simp only [state_setState]
        split
        · rename_i same
          rw [same, unused]
        · rfl
      · rw [slots_setState, slots_setState]
    | true =>
      have newSlots : ((tables.setState np .embryo).setStatus np .embryo (some proc)).slots =
          tables.slots := by
        rw [slots_setStatus, slots_setState]
      have newCounted : ((tables.setState np .embryo).setStatus np .embryo
          (some proc)).Counted 0 := by
        rw [Counted, newSlots]
        exact consistent.counted
      have empty : ∀ fd ∈ List.finRange nofile, ((tables.setState np .embryo).setStatus np
          .embryo (some proc)).slots (np, fd) = none := by
        intro fd _
        rw [newSlots]
        exact consistent.idle np (by simp [unused]) fd
      obtain ⟨after, loop, counted, states, others⟩ :=
        @forkFds_counted _ proc np _ newCounted empty (nodup_finRange nofile)
      simp only [loop, bind, Except.bind]
      refine ⟨_, _, rfl, ⟨?_, ?_⟩, nofun⟩
      · rw [Counted, slots_setState]
        exact counted
      intro p notRunning fd
      rw [slots_setState]
      have notChild : p ≠ np := by
        rintro rfl
        simp [state_setState] at notRunning
      rw [others p fd notChild, newSlots]
      refine consistent.idle p ?_ fd
      simpa [state_setState, state_setStatus, notChild, states] using notRunning

omit consistent live in
/-- The loop of `exit` empties the descriptors. -/
theorem exitFds_counted {fds : List Fd} (counted : tables.Counted 0) :
    ∃ after, exitFds proc tables fds = .ok after ∧ after.Counted 0 ∧
      (∀ p, (after.proc p).state = (tables.proc p).state) ∧
      (∀ p fd, p ≠ proc → after.slots (p, fd) = tables.slots (p, fd)) ∧
      ∀ fd, after.slots (proc, fd) = if fd ∈ fds then none else tables.slots (proc, fd) := by
  induction fds generalizing tables with
  | nil => exact ⟨tables, rfl, counted, fun _ => rfl, fun _ _ _ => rfl, fun _ => rfl⟩
  | cons fd fds ih =>
    rw [exitFds]
    cases found : (tables.proc proc).ofile fd with
    | none =>
      have emptied : tables.slots (proc, fd) = none := found
      obtain ⟨after, loop, afterCounted, states, others, own⟩ := ih counted
      refine ⟨after, loop, afterCounted, states, others, ?_⟩
      intro other
      rw [own]
      by_cases same : other = fd
      · simp [same, emptied]
      · simp [same]
    | some f =>
      have filled : tables.slots (proc, fd) = some f := found
      have closedFile := fileclose_eq (counted.pos_of_slot filled)
      have emptied : ((tables.setFile f (closed (tables.file f))).setFd proc fd none).Counted
          0 := by
        rw [Counted, refs_setFd, refs_setFile, closed_ref, slots_setFd, slots_setFile]
        exact (counted.take filled).release
      obtain ⟨after, loop, afterCounted, states, others, own⟩ := ih emptied
      refine ⟨after, ?_, afterCounted, ?_, ?_, ?_⟩
      · simp only [closedFile]
        exact loop
      · intro p
        rw [states, state_setFd]
        rfl
      · intro p other distinct
        rw [others p other distinct]
        simp [distinct]
      · intro other
        rw [own, slots_setFd, slots_setFile]
        by_cases same : other = fd
        · simp [same]
        · simp [same]

omit live in
theorem exit_settles (notInit : proc ≠ initproc) : Settles tables (exit tables proc) := by
  obtain ⟨after, loop, counted, states, others, own⟩ :=
    @exitFds_counted tables proc (List.finRange nofile) consistent.counted
  have passed : (passChildren after proc).slots = after.slots := by
    funext slot
    simp only [slots, passChildren]
    split <;> rfl
  rw [exit, if_neg notInit, loop]
  refine ⟨_, _, rfl, ⟨?_, ?_⟩, nofun⟩
  · rw [Counted, slots_setState, passed]
    exact counted
  intro p notRunning fd
  rw [slots_setState, passed]
  by_cases same : p = proc
  · rw [same, own, if_pos (mem_finRange fd)]
  rw [others p fd same]
  refine consistent.idle p ?_ fd
  rw [← states]
  simp only [state_setState, if_neg same, passChildren] at notRunning
  split at notRunning
  · exact notRunning
  · exact notRunning

omit live in
theorem wait_settles : Settles tables (wait tables proc) := by
  unfold wait
  cases found : (List.finRange nproc).find? fun p =>
      (tables.proc p).parent == some proc && (tables.proc p).state == .zombie with
  | none => exact consistent.fails
  | some child =>
    have isZombie := find?_some found
    rw [Bool.and_eq_true, beq_iff_eq, beq_iff_eq] at isZombie
    refine ⟨_, _, rfl, ⟨?_, ?_⟩, nofun⟩
    · rw [Counted, slots_setStatus]
      exact consistent.counted
    intro p notRunning fd
    rw [slots_setStatus]
    refine consistent.idle p ?_ fd
    rw [state_setStatus] at notRunning
    split at notRunning
    · rename_i same
      rw [same, isZombie.2]
      exact ProcState.noConfusion
    · exact notRunning

end

/-! ## Runs -/

/-- Every call of a running process settles, unless the first process exits. -/
theorem Consistent.call (consistent : Consistent tables)
    (live : (tables.proc proc).state = .runnable) (call : Call) :
    Settles tables (tables.call proc call) ∨
      proc = initproc ∧ call = .exit ∧ tables.call proc call = .error .initExiting := by
  cases call with
  | «open» ip omode => exact .inl (sysOpen_settles consistent live ip omode)
  | dup fd => exact .inl (sysDup_settles consistent live fd)
  | close fd => exact .inl (sysClose_settles consistent live fd)
  | pipe valid page => exact .inl (sysPipe_settles consistent live valid page)
  | fork kstack pgdir => exact .inl (fork_settles consistent kstack pgdir)
  | wait => exact .inl (wait_settles consistent)
  | exit =>
    by_cases first : proc = initproc
    · exact .inr ⟨first, rfl, if_pos first⟩
    · exact .inl (exit_settles consistent first)

theorem boot_consistent : Consistent boot where
  counted := by
    intro f
    have none : pointers boot.slots f = 0 := pointers_eq_zero_iff.mpr fun _ => nofun
    rw [none]
    rfl
  idle := fun _ _ _ => rfl

/-- What a sequence of calls reaches is consistent. -/
theorem Consistent.of_reached
    (reached : Run.Reached Tables.step Tables.Runs boot tables) : Consistent tables := by
  refine reached.invariant ?_ boot_consistent
  intro before event after consistent live stepped
  rcases consistent.call live event.2 with
    ⟨last, result, called, lastConsistent, -⟩ | ⟨-, -, panicked⟩
  · rw [Tables.step, called] at stepped
    obtain rfl := some.inj stepped
    exact lastConsistent
  · rw [Tables.step, panicked] at stepped
    contradiction

/-- In every state that system calls of any processes reach, each count is the
number of descriptors that point at the entry, an entry with count 0 is pointed
at by none, and the next call returns, unless the first process exits; if it
fails, descriptors and counts are as they were. -/
theorem file_references_exact (reached : Run.Reached Tables.step Tables.Runs boot tables) :
    (∀ f, (tables.file f).ref =
      (Finset.univ.filter fun slot : ProcPtr × Fd =>
        (tables.proc slot.1).ofile slot.2 = some f).card) ∧
    (∀ f, (tables.file f).ref = 0 → ∀ p fd, (tables.proc p).ofile fd ≠ some f) ∧
    ∀ proc call, (tables.proc proc).state = .runnable →
      (∃ after result, tables.call proc call = .ok (after, result) ∧
        (result = none → (∀ p fd, (after.proc p).ofile fd = (tables.proc p).ofile fd) ∧
          ∀ f, (after.file f).ref = (tables.file f).ref)) ∨
      proc = initproc ∧ call = .exit ∧ tables.call proc call = .error .initExiting := by
  have consistent := Consistent.of_reached reached
  refine ⟨?_, ?_, ?_⟩
  · intro f
    exact (consistent.counted f).trans (Nat.add_zero _)
  · intro f unused p fd
    exact consistent.counted.ne_of_count_eq_zero unused (p, fd)
  intro proc call live
  refine (consistent.call live call).imp_left ?_
  rintro ⟨after, result, called, afterConsistent, kept⟩
  refine ⟨after, result, called, ?_⟩
  intro failed
  have sameSlots := kept failed
  refine ⟨fun p fd => congrFun sameSlots (p, fd), ?_⟩
  have counted := afterConsistent.counted
  rw [Counted, sameSlots] at counted
  exact congrFun (counted.count_eq consistent.counted)

theorem file_references_exact_after_open :
    ∃ tables, boot.step (initproc, .open (some 7) 0) = some tables ∧
      ∀ f, (tables.file f).ref =
        (Finset.univ.filter fun slot : ProcPtr × Fd =>
          (tables.proc slot.1).ofile slot.2 = some f).card := by
  have opens : (boot.step (initproc, .open (some 7) 0)).isSome = true := by decide
  have runs : boot.Runs (initproc, .open (some 7) 0) := rfl
  obtain ⟨tables, stepped⟩ := isSome_iff_exists.mp opens
  exact ⟨tables, stepped, (file_references_exact (.step .start runs stepped)).1⟩

end XEditor.Kernel.FileTable
