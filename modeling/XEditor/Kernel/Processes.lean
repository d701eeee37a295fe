import XEditor.Kernel.Create

/-!
# Processes that share a file system

`sys_mkdir` and `sys_mknod` on the state of `XEditor.Kernel.FileSystem`, and the
calls of several processes.  A process has its own working directory and its own
descriptors; the inode table and the file table are shared.
-/

namespace XEditor.Kernel

open Option State

/-! ## Directories and device nodes -/

/-- The first two entries `create` gives a new directory, and the link it gives
to the parent for `..`. -/
def createDots (state : State) (dp ip : Nat) (dir : Inode) : Option (State × Inode) := do
  let dir := { dir with nlink := toShort (dir.nlink + 1) }
  match ← dirlink [] dotName ip with
  | none => none
  | some dot =>
    match ← dirlink dot dotDotName dp with
    | none => none
    | some dots => some ((state.setInode dp dir).setInode ip ⟨.dir, 1, dots, []⟩, dir)

/-- Source `create` for an inode of any type. -/
def createNode (state : State) (path : Path) (type : FileType) :
    Option (State × Option Nat) := do
  match ← nameiparent state path with
  | none => some (state, none)
  | some (dp, name) =>
    let dir ← state.inode? dp
    match dirlookup dir.entries name with
    | some ip =>
      let inode ← state.inode? ip
      if type = .file ∧ inode.type = .file then some (state.iput dp, some ip)
      else some ((state.iput dp).iput ip, none)
    | none =>
      let ip ← ialloc state
      let state := state.setInode ip ⟨type, 1, [], []⟩
      let (state, dir) ← if type = .dir then createDots state dp ip dir else some (state, dir)
      match ← dirlink dir.entries name ip with
      | none => none
      | some entries =>
        some ((state.setInode dp { dir with entries := entries }).iput dp, some ip)

/-- For a regular file this is the `create` of `sys_open`. -/
theorem createNode_file (state : State) (path : Path) :
    createNode state path .file = create state path := by
  unfold createNode create
  simp only [true_and]
  rfl

/-- Source `sys_mkdir` and `sys_mknod`, which drop the inode they make. -/
def sysMake (state : State) (path : Path) (type : FileType) : Option (State × Int) := do
  match ← createNode state path type with
  | (state, none) => some (state, -1)
  | (state, some ip) => some (state.iput ip, 0)

/-- Source `sys_mkdir`. -/
def sysMkdir (state : State) (path : Path) : Option (State × Int) :=
  sysMake state path .dir

/-- Source `sys_mknod`; the device numbers play no part here. -/
def sysMknod (state : State) (path : Path) : Option (State × Int) :=
  sysMake state path .dev

/-! ## The calls of a process -/

/-- The system calls that change names, working directories or descriptors. -/
inductive NameCall where
  | open (path : Path) (omode : Nat)
  | mkdir (path : Path)
  | mknod (path : Path)
  | link (old new : Path)
  | unlink (path : Path)
  | chdir (path : Path)
  | close (fd : Int)
  deriving DecidableEq, Repr

/-- A call of the process whose working directory and descriptors the state
has. -/
def NameCall.run (state : State) : NameCall → Option (State × Int)
  | .open path omode => sysOpen state path omode
  | .mkdir path => sysMkdir state path
  | .mknod path => sysMknod state path
  | .link old new => sysLink state old new
  | .unlink path => sysUnlink state path
  | .chdir path => sysChdir state path
  | .close fd => some (sysClose state fd)

/-- What a process has of its own. -/
structure Process where
  cwd : Nat
  ofile : List (Option OpenFile)
  deriving DecidableEq, Repr

/-- The inodes a process keeps in use. -/
def Process.inums (process : Process) : List Nat :=
  process.cwd :: process.ofile.filterMap (Option.map OpenFile.inum)

/-- The inode table, the processes and the number of free entries of the file
table. -/
structure System where
  inodes : List (Option Inode)
  procs : List Process
  ftableFree : Nat
  deriving DecidableEq, Repr

namespace System

/-- The inode table as a process sees it that is not there. -/
def files (system : System) : State where
  inodes := system.inodes
  cwd := rootino
  ofile := []
  heldElsewhere := system.procs.flatMap Process.inums
  ftableFree := system.ftableFree

/-- What a process sees. -/
def view (system : System) (pid : Nat) (process : Process) : State where
  inodes := system.inodes
  cwd := process.cwd
  ofile := process.ofile
  heldElsewhere := (system.procs.eraseIdx pid).flatMap Process.inums
  ftableFree := system.ftableFree

/-- Take over what a call of a process has changed. -/
def store (system : System) (pid : Nat) (state : State) : System where
  inodes := state.inodes
  procs := system.procs.set pid ⟨state.cwd, state.ofile⟩
  ftableFree := state.ftableFree

/-- A call of a process. -/
def call (system : System) (pid : Nat) (call : NameCall) : Option (System × Int) := do
  let process ← system.procs[pid]?
  let (state, code) ← call.run (system.view pid process)
  some (system.store pid state, code)

/-- A call of a process that returns. -/
def step (system : System) (event : Nat × NameCall) : Option System :=
  (system.call event.1 event.2).map Prod.fst

end System

end XEditor.Kernel
