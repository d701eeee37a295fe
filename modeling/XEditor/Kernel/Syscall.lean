import XEditor.Kernel.FileSystem

/-!
# System calls on files

The system calls of `sysfile.c` that the editor makes, on the state of
`XEditor.Kernel.FileSystem`.  A call gives the new state and its return value;
`none` is a panic.
-/

namespace XEditor.Kernel

/-! ## Names -/

/-- The label `bad` of `sys_link`: take the extra link back. -/
def linkBad (state : State) (ip : Nat) : Option (State × Int) := do
  let inode ← state.inode? ip
  some ((state.setInode ip { inode with nlink := toShort (inode.nlink - 1) }).iput ip, -1)

/-- `sys_link` once the old path is resolved and its inode has the extra link. -/
def linkEntry (state : State) (ip : Nat) (new : Path) : Option (State × Int) := do
  match ← nameiparent state new with
  | none => linkBad state ip
  | some (dp, name) =>
    let dir ← state.inode? dp
    match ← dirlink dir.entries name ip with
    | none => linkBad (state.iput dp) ip
    | some entries =>
      some (((state.setInode dp { dir with entries := entries }).iput dp).iput ip, 0)

/-- Source `sys_link`. -/
def sysLink (state : State) (old new : Path) : Option (State × Int) := do
  match ← namei state old with
  | none => some (state, -1)
  | some ip =>
    let inode ← state.inode? ip
    if inode.type = .dir then some (state.iput ip, -1)
    else
      linkEntry (state.setInode ip { inode with nlink := toShort (inode.nlink + 1) }) ip new

def dotName : Name := [46]

def dotDotName : Name := [46, 46]

/-- `sys_unlink` once both inodes are locked and the entry may be removed. -/
def unlinkEntry (state : State) (dp slot ip : Nat) (dir inode : Inode) : State :=
  let dir := { dir with entries := dir.entries.set slot freeEntry }
  let dir := if inode.type = .dir then { dir with nlink := toShort (dir.nlink - 1) } else dir
  let state := (state.setInode dp dir).iput dp
  (state.setInode ip { inode with nlink := toShort (inode.nlink - 1) }).iput ip

/-- `sys_unlink` once the parent directory is known.  An entry that names its
own directory makes the call wait on its own lock. -/
def unlinkIn (state : State) (dp : Nat) (name : Name) : Option (State × Int) := do
  let dir ← state.inode? dp
  if name = dotName ∨ name = dotDotName then some (state.iput dp, -1)
  else
    match slotOf dir.entries name, dirlookup dir.entries name with
    | some slot, some ip =>
      if ip = dp then none
      else
        let inode ← state.inode? ip
        if inode.nlink < 1 then none
        else if inode.type = .dir ∧ isdirempty inode.entries = false then
          some ((state.iput ip).iput dp, -1)
        else some (unlinkEntry state dp slot ip dir inode, 0)
    | _, _ => some (state.iput dp, -1)

/-- Source `sys_unlink`. -/
def sysUnlink (state : State) (path : Path) : Option (State × Int) := do
  match ← nameiparent state path with
  | none => some (state, -1)
  | some (dp, name) => unlinkIn state dp name

/-- Source `sys_chdir`. -/
def sysChdir (state : State) (path : Path) : Option (State × Int) := do
  match ← namei state path with
  | none => some (state, -1)
  | some ip =>
    let inode ← state.inode? ip
    if inode.type = .dir then some ({ state with cwd := ip }.iput state.cwd, 0)
    else some (state.iput ip, -1)

/-! ## Descriptors -/

def oWronly : Nat := 0x001

def oRdwr : Nat := 0x002

def oCreate : Nat := 0x200

/-- Source `ialloc`: the first free inode; it panics when there is none. -/
def ialloc (state : State) : Option Nat :=
  (List.range state.inodes.length).find? fun inum =>
    inum != 0 && (state.inode? inum).isNone

/-- Source `create` for a regular file. -/
def create (state : State) (path : Path) : Option (State × Option Nat) := do
  match ← nameiparent state path with
  | none => some (state, none)
  | some (dp, name) =>
    let dir ← state.inode? dp
    match dirlookup dir.entries name with
    | some ip =>
      let inode ← state.inode? ip
      if inode.type = .file then some (state.iput dp, some ip)
      else some ((state.iput dp).iput ip, none)
    | none =>
      let ip ← ialloc state
      let state := state.setInode ip ⟨.file, 1, [], []⟩
      match ← dirlink dir.entries name ip with
      | none => none
      | some entries =>
        some ((state.setInode dp { dir with entries := entries }).iput dp, some ip)

/-- `sys_open` once the inode is known: take an entry of the file table and a
descriptor. -/
def openInode (state : State) (ip omode : Nat) : State × Int :=
  match state.ofile.findIdx? Option.isNone with
  | some fd =>
    if state.ftableFree = 0 then (state.iput ip, -1)
    else
      ({ state with
        ofile := state.ofile.set fd (some {
          inum := ip
          off := 0
          readable := omode &&& oWronly == 0
          writable := omode &&& oWronly != 0 || omode &&& oRdwr != 0 })
        ftableFree := state.ftableFree - 1 }, fd)
  | none => (state.iput ip, -1)

/-- Source `sys_open`. -/
def sysOpen (state : State) (path : Path) (omode : Nat) : Option (State × Int) :=
  if omode &&& oCreate ≠ 0 then do
    match ← create state path with
    | (state, none) => some (state, -1)
    | (state, some ip) => some (openInode state ip omode)
  else do
    match ← namei state path with
    | none => some (state, -1)
    | some ip =>
      let inode ← state.inode? ip
      if inode.type = .dir ∧ omode ≠ 0 then some (state.iput ip, -1)
      else some (openInode state ip omode)

/-- The open file of a descriptor, as `argfd` finds it. -/
def State.file? (state : State) (fd : Int) : Option OpenFile :=
  if fd < 0 then none else state.ofile[fd.toNat]?.join

/-- Source `sys_close`. -/
def sysClose (state : State) (fd : Int) : State × Int :=
  match state.file? fd with
  | none => (state, -1)
  | some file =>
    ({ state with
      ofile := state.ofile.set fd.toNat none
      ftableFree := state.ftableFree + 1 }.iput file.inum, 0)

/-- The inode type `sys_fstat` reports; the return value -1 is the inner
`none`. -/
def sysFstat (state : State) (fd : Int) : Option (Option FileType) :=
  match state.file? fd with
  | none => some none
  | some file => (state.inode? file.inum).map fun inode => some inode.type

end XEditor.Kernel
