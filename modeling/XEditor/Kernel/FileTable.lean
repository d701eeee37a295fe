import Mathlib.Data.Fintype.Prod
import XEditor.Lib.References
import XEditor.Lib.Run

/-!
# The file table and the descriptors

Source `file.c`, `pipe.c`, `sysfile.c` and `proc.c`, as far as they share out the
entries of the file table among the descriptors of the processes.  A pointer to
an entry is its index.

One system call runs at a time.  What a call learns from elsewhere is given with
it: the inode that the path of `open` leads to, and whether there is memory.
What `fileclose` does to the pipe or the inode of the last reference is not a
part of the tables.
-/

namespace XEditor.Kernel.FileTable

open References

/-- Source `NFILE`. -/
def nfile : Nat := 100

/-- Source `NOFILE`. -/
def nofile : Nat := 100

/-- Source `NPROC`. -/
def nproc : Nat := 64

/-- A pointer to an entry of the file table. -/
abbrev FilePtr := Fin nfile

/-- A file descriptor. -/
abbrev Fd := Fin nofile

/-- A pointer to an entry of the process table. -/
abbrev ProcPtr := Fin nproc

/-- The types of a `struct file`. -/
inductive FdType where
  | none
  | pipe
  | inode
  deriving DecidableEq, Repr

/-- Source `struct file`. -/
structure File where
  type : FdType
  ref : Nat
  readable : Bool
  writable : Bool
  pipe : Nat
  ip : Nat
  off : Nat
  deriving DecidableEq, Repr

/-- The states of a process.  Between two calls it makes no difference whether a
process is `RUNNING`, `RUNNABLE` or `SLEEPING`. -/
inductive ProcState where
  | unused
  | embryo
  | runnable
  | zombie
  deriving DecidableEq, Repr

/-- The fields of `struct proc` that have to do with descriptors. -/
structure Proc where
  state : ProcState
  parent : Option ProcPtr
  ofile : Fd → Option FilePtr

/-- The file table and the process table. -/
structure Tables where
  file : FilePtr → File
  proc : ProcPtr → Proc

/-- The panics of these functions. -/
inductive Panic where
  | filedup
  | fileclose
  | initExiting
  deriving DecidableEq, Repr

/-- The entry of the first process. -/
def initproc : ProcPtr := ⟨0, by decide⟩

namespace Tables

/-- Store an entry of the file table. -/
def setFile (tables : Tables) (f : FilePtr) (file : File) : Tables :=
  { tables with file := Function.update tables.file f file }

/-- Store an entry of the process table. -/
def setProc (tables : Tables) (p : ProcPtr) (proc : Proc) : Tables :=
  { tables with proc := Function.update tables.proc p proc }

/-- Store a descriptor of a process. -/
def setFd (tables : Tables) (p : ProcPtr) (fd : Fd) (f : Option FilePtr) : Tables :=
  tables.setProc p
    { tables.proc p with ofile := Function.update (tables.proc p).ofile fd f }

/-- Store the state and the parent of a process. -/
def setStatus (tables : Tables) (p : ProcPtr) (state : ProcState) (parent : Option ProcPtr) :
    Tables :=
  tables.setProc p { tables.proc p with state, parent }

/-- Store the state of a process. -/
def setState (tables : Tables) (p : ProcPtr) (state : ProcState) : Tables :=
  tables.setStatus p state (tables.proc p).parent

end Tables

/-! ## Files and descriptors -/

/-- Source `filealloc`. -/
def filealloc (tables : Tables) : Tables × Option FilePtr :=
  match (List.finRange nfile).find? fun f => (tables.file f).ref == 0 with
  | none => (tables, none)
  | some f => (tables.setFile f { tables.file f with ref := 1 }, some f)

/-- Source `filedup`. -/
def filedup (tables : Tables) (f : FilePtr) : Except Panic Tables :=
  if (tables.file f).ref < 1 then .error .filedup
  else .ok (tables.setFile f { tables.file f with ref := (tables.file f).ref + 1 })

/-- Source `fileclose`. -/
def fileclose (tables : Tables) (f : FilePtr) : Except Panic Tables :=
  if (tables.file f).ref < 1 then .error .fileclose
  else if (tables.file f).ref - 1 > 0 then
    .ok (tables.setFile f { tables.file f with ref := (tables.file f).ref - 1 })
  else .ok (tables.setFile f { tables.file f with ref := 0, type := .none })

/-- Source `argfd`, for a descriptor. -/
def argfd (tables : Tables) (proc : ProcPtr) (fd : Int) : Option (Fd × FilePtr) :=
  if inside : 0 ≤ fd ∧ fd < nofile then
    let fd : Fd := ⟨fd.toNat, by omega⟩
    ((tables.proc proc).ofile fd).map fun f => (fd, f)
  else none

/-- Source `fdalloc`. -/
def fdalloc (tables : Tables) (proc : ProcPtr) (f : FilePtr) : Tables × Option Fd :=
  match (List.finRange nofile).find? fun fd => ((tables.proc proc).ofile fd).isNone with
  | none => (tables, none)
  | some fd => (tables.setFd proc fd (some f), some fd)

/-! ## System calls -/

/-- What a system call returns; `none` is the return value -1. -/
abbrev Outcome := Except Panic (Tables × Option Nat)

/-- Source `sys_dup`. -/
def sysDup (tables : Tables) (proc : ProcPtr) (fd : Int) : Outcome :=
  match argfd tables proc fd with
  | none => .ok (tables, none)
  | some (_, f) =>
    match fdalloc tables proc f with
    | (tables, none) => .ok (tables, none)
    | (tables, some fd) => do
      let tables ← filedup tables f
      .ok (tables, some fd)

/-- Source `sys_close`. -/
def sysClose (tables : Tables) (proc : ProcPtr) (fd : Int) : Outcome :=
  match argfd tables proc fd with
  | none => .ok (tables, none)
  | some (fd, f) => do
    let tables ← fileclose (tables.setFd proc fd none) f
    .ok (tables, some 0)

def oWronly : BitVec 32 := 0x001

def oRdwr : BitVec 32 := 0x002

/-- Source `sys_open`, with the inode that `create` or `namei` returns, if any. -/
def sysOpen (tables : Tables) (proc : ProcPtr) (ip : Option Nat) (omode : BitVec 32) : Outcome :=
  match ip with
  | none => .ok (tables, none)
  | some ip =>
    match filealloc tables with
    | (tables, none) => .ok (tables, none)
    | (tables, some f) =>
      match fdalloc tables proc f with
      | (tables, none) => do
        let tables ← fileclose tables f
        .ok (tables, none)
      | (tables, some fd) =>
        .ok (tables.setFile f
          { tables.file f with
            type := .inode
            ip
            off := 0
            readable := omode &&& oWronly == 0
            writable := omode &&& oWronly != 0 || omode &&& oRdwr != 0 }, some fd)

/-- Close the two files of a pipe that cannot be used. -/
def closeBoth (tables : Tables) (f0 f1 : FilePtr) : Except Panic Tables := do
  let tables ← fileclose tables f0
  fileclose tables f1

/-- Source `pipealloc`, with the page that `kalloc` returns, if any. -/
def pipealloc (tables : Tables) (page : Option Nat) :
    Except Panic (Tables × Option (FilePtr × FilePtr)) :=
  match filealloc tables with
  | (tables, none) => .ok (tables, none)
  | (tables, some f0) =>
    match filealloc tables with
    | (tables, none) => do
      let tables ← fileclose tables f0
      .ok (tables, none)
    | (tables, some f1) =>
      match page with
      | none => do
        let tables ← closeBoth tables f0 f1
        .ok (tables, none)
      | some pipe =>
        let tables := tables.setFile f0
          { tables.file f0 with type := .pipe, readable := true, writable := false, pipe }
        let tables := tables.setFile f1
          { tables.file f1 with type := .pipe, readable := false, writable := true, pipe }
        .ok (tables, some (f0, f1))

/-- Source `sys_pipe`; the argument is a valid address or not. -/
def sysPipe (tables : Tables) (proc : ProcPtr) (valid : Bool) (page : Option Nat) : Outcome :=
  if valid then do
    match ← pipealloc tables page with
    | (tables, none) => .ok (tables, none)
    | (tables, some (rf, wf)) =>
      match fdalloc tables proc rf with
      | (tables, none) => do
        let tables ← closeBoth tables rf wf
        .ok (tables, none)
      | (tables, some fd0) =>
        match fdalloc tables proc wf with
        | (tables, none) => do
          let tables ← closeBoth (tables.setFd proc fd0 none) rf wf
          .ok (tables, none)
        | (tables, some _) => .ok (tables, some 0)
  else .ok (tables, none)

/-- The loop of `fork` over the descriptors. -/
def forkFds (proc np : ProcPtr) : Tables → List Fd → Except Panic Tables
  | tables, [] => .ok tables
  | tables, fd :: fds =>
    match (tables.proc proc).ofile fd with
    | none => forkFds proc np tables fds
    | some f => do
      let tables ← filedup tables f
      forkFds proc np (tables.setFd np fd (some f)) fds

/-- Source `fork`.  Whether there is memory for the stack and for the page table is
given; the entry of the child is returned in place of its process number. -/
def fork (tables : Tables) (proc : ProcPtr) (kstack pgdir : Bool) : Outcome :=
  match (List.finRange nproc).find? fun p => (tables.proc p).state == .unused with
  | none => .ok (tables, none)
  | some np =>
    let tables := tables.setState np .embryo
    if kstack && pgdir then do
      let tables := tables.setStatus np .embryo (some proc)
      let tables ← forkFds proc np tables (List.finRange nofile)
      .ok (tables.setState np .runnable, some np)
    else .ok (tables.setState np .unused, none)

/-- The loop of `exit` over the descriptors. -/
def exitFds (proc : ProcPtr) : Tables → List Fd → Except Panic Tables
  | tables, [] => .ok tables
  | tables, fd :: fds =>
    match (tables.proc proc).ofile fd with
    | none => exitFds proc tables fds
    | some f => do
      let tables ← fileclose tables f
      exitFds proc (tables.setFd proc fd none) fds

/-- The children of a process are passed to the first one. -/
def passChildren (tables : Tables) (proc : ProcPtr) : Tables :=
  { tables with
    proc := fun p =>
      if (tables.proc p).parent = some proc then
        { tables.proc p with parent := some initproc }
      else tables.proc p }

/-- Source `exit`. -/
def exit (tables : Tables) (proc : ProcPtr) : Outcome :=
  if proc = initproc then .error .initExiting
  else do
    let tables ← exitFds proc tables (List.finRange nofile)
    .ok ((passChildren tables proc).setState proc .zombie, some 0)

/-- Source `wait`, when there is a child that has exited or none at all. -/
def wait (tables : Tables) (proc : ProcPtr) : Outcome :=
  match (List.finRange nproc).find? fun p =>
      (tables.proc p).parent == some proc && (tables.proc p).state == .zombie with
  | none => .ok (tables, none)
  | some p => .ok (tables.setStatus p .unused none, some p)

/-- A system call with its arguments. -/
inductive Call where
  | open (ip : Option Nat) (omode : BitVec 32)
  | dup (fd : Int)
  | close (fd : Int)
  | pipe (valid : Bool) (page : Option Nat)
  | fork (kstack pgdir : Bool)
  | exit
  | wait

/-- A process makes a system call. -/
def Tables.call (tables : Tables) (proc : ProcPtr) : Call → Outcome
  | .open ip omode => sysOpen tables proc ip omode
  | .dup fd => sysDup tables proc fd
  | .close fd => sysClose tables proc fd
  | .pipe valid page => sysPipe tables proc valid page
  | .fork kstack pgdir => fork tables proc kstack pgdir
  | .exit => exit tables proc
  | .wait => wait tables proc

/-- The tables after a call. -/
def Tables.step (tables : Tables) (event : ProcPtr × Call) : Option Tables :=
  (tables.call event.1 event.2).toOption.map Prod.fst

/-- Calls are made by processes that run. -/
def Tables.Runs (tables : Tables) (event : ProcPtr × Call) : Prop :=
  (tables.proc event.1).state = .runnable

/-- The tables when the first process starts. -/
def boot : Tables where
  file := fun _ => ⟨.none, 0, false, false, 0, 0, 0⟩
  proc := fun p => ⟨if p = initproc then .runnable else .unused, none, fun _ => none⟩

end XEditor.Kernel.FileTable
