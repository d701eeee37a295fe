import XEditor.Fs.MkfsRun
import XEditor.Fs.Reading

/-!
# The images of `mkfs`

An image holds the files it was made from: their bytes, with exactly the blocks they
need, and a root directory that names them.  Only the size of the root directory is
rounded up.
-/

namespace XEditor.Fs.Mkfs

open List Option Function Program Files
open Kernel (Name slash)

/-! ## The root directory -/

theorem length_padded (name : Name) : (padded name).length = Kernel.dirsiz := by
  rw [padded, length_append, length_take, length_replicate]
  omega

@[simp]
theorem length_direntBytes (inum : Nat) (name : Name) : (direntBytes inum name).length = 16 := by
  rw [direntBytes, Dirent.toBytes, length_cons, length_cons, length_padded]
  rfl

/-- The entries of files with consecutive inode numbers. -/
def entriesFrom (inum : Nat) : List Input → List UInt8
  | [] => []
  | file :: files => direntBytes inum file.name ++ entriesFrom (inum + 1) files

theorem entriesFrom_append (inum : Nat) (first second : List Input) :
    entriesFrom inum (first ++ second) =
      entriesFrom inum first ++ entriesFrom (inum + first.length) second := by
  induction first generalizing inum with
  | nil => rfl
  | cons file first ih =>
    rw [cons_append, entriesFrom, entriesFrom, ih, append_assoc, length_cons,
      Nat.add_assoc, Nat.add_comm 1]

theorem length_entriesFrom (inum : Nat) (files : List Input) :
    (entriesFrom inum files).length = 16 * files.length := by
  induction files generalizing inum with
  | nil => rfl
  | cons file files ih =>
    rw [entriesFrom, length_append, length_direntBytes, ih, length_cons]
    omega

/-- The bytes of the root directory. -/
def rootBytes (files : List Input) : List UInt8 :=
  direntBytes rootino [46] ++ direntBytes rootino [46, 46] ++ entriesFrom 2 files

theorem length_rootBytes (files : List Input) :
    (rootBytes files).length = 16 * (files.length + 2) := by
  rw [rootBytes, length_append, length_append, length_direntBytes, length_direntBytes,
    length_entriesFrom]
  omega

theorem rootBytes_concat (files : List Input) (file : Input) :
    rootBytes (files ++ [file]) =
      rootBytes files ++ direntBytes (files.length + 2) file.name := by
  rw [rootBytes, rootBytes, entriesFrom_append, ← append_assoc, entriesFrom, entriesFrom,
    append_nil, Nat.add_comm 2]

/-! ## Which files fit -/

/-- The blocks that files need. -/
def blocksOf (contents : List (List UInt8)) : Nat :=
  (contents.map fun bytes => blocksFor bytes.length).sum

theorem blocksOf_append (first second : List (List UInt8)) :
    blocksOf (first ++ second) = blocksOf first + blocksOf second := by
  rw [blocksOf, map_append, sum_append]
  rfl

theorem blocksOf_singleton (bytes : List UInt8) : blocksOf [bytes] = blocksFor bytes.length :=
  Nat.add_zero _

/-- The blocks in use in the end. -/
def usedFor (files : List Input) : Nat :=
  dataStart + blocksFor (16 * (files.length + 2)) + blocksOf (files.map Input.bytes)

/-- Files that `mkfs` accepts: there is an inode for each, no argument has a slash, none
is too large for a file, and one bitmap block covers the used blocks. -/
structure Fits (files : List Input) : Prop where
  few : files.length < ninodes
  slash : ∀ file ∈ files, slash ∉ file.arg
  small : ∀ file ∈ files, file.bytes.length ≤ maxfile * bsize
  used : usedFor files < bsize * 8

/-! ## Runs -/

/-- What `mkfs` has built so far. -/
structure Built (state : State) (files : Files) (root : List UInt8)
    (contents : List (List UInt8)) : Prop where
  holds : Holds state files none
  freeinode : state.freeinode = contents.length + 2
  directory : Stored files rootino tDir root
  stored : ∀ index bytes, contents[index]? = some bytes → Stored files (index + 2) tFile bytes
  count : state.freeblock = dataStart + blocksFor root.length + blocksOf contents

section

variable {fails : Prop} {state : State} {files : Files} {root : List UInt8}
  {contents : List (List UInt8)}

/-- An entry is appended to the root directory. -/
theorem Built.appendRoot (built : Built state files root contents) (p : List UInt8)
    (small : ¬ fails → root.length + p.length ≤ maxfile * bsize)
    (room : ¬ fails →
      dataStart + blocksFor (root.length + p.length) + blocksOf contents ≤ fssize) :
    Ends fails (iappend rootino p) state fun _ last => ∃ files',
      Built last files' (root ++ p) contents := by
  have count := built.count
  refine (iappend_ends built.holds built.directory
    ⟨by decide, by rw [built.freeinode]; unfold rootino; omega⟩ small
    fun works => by have := room works; omega).mono ?_
  rintro _ last ⟨files', holds, isRoot, others, freeinode, blocks⟩
  refine ⟨files', holds, freeinode.trans built.freeinode, isRoot, ?_, ?_⟩
  · intro index bytes isStored
    exact others _ _ _ (by unfold rootino; omega) (built.stored index bytes isStored)
  · rw [length_append]
    omega

/-- Bytes are appended to the last file. -/
theorem Built.appendLast {bytes : List UInt8} (built : Built state files root (contents ++ [bytes]))
    {p : List UInt8} (small : ¬ fails → bytes.length + p.length ≤ maxfile * bsize)
    (room : ¬ fails →
      dataStart + blocksFor root.length + blocksOf contents + blocksFor (bytes.length + p.length) ≤
        fssize) :
    Ends fails (iappend (contents.length + 2) p) state fun _ last => ∃ files',
      Built last files' root (contents ++ [bytes ++ p]) := by
  have count := built.count
  have freeinode := built.freeinode
  rw [length_append, length_singleton] at freeinode
  rw [blocksOf_append, blocksOf_singleton] at count
  have isLast : (contents ++ [bytes])[contents.length]? = some bytes := by simp
  refine (iappend_ends built.holds (built.stored _ _ isLast) ⟨by omega, by omega⟩ small
    fun works => by have := room works; omega).mono ?_
  rintro _ last ⟨files', holds, stored, others, freeinode', blocks⟩
  refine ⟨files', holds, by simp [freeinode', freeinode], others _ _ _ ?_ built.directory, ?_, ?_⟩
  · unfold rootino
    omega
  · intro index other isStored
    rcases Nat.lt_trichotomy index contents.length with before | rfl | behind
    · refine others _ _ _ (by omega) (built.stored index other ?_)
      rw [getElem?_append_left before] at isStored ⊢
      exact isStored
    · simp only [getElem?_concat_length, some.injEq] at isStored
      rwa [← isStored]
    · rw [getElem?_eq_none (by simp; omega)] at isStored
      cases isStored
  · rw [blocksOf_append, blocksOf_singleton, length_append]
    omega

/-- A file is made. -/
theorem Built.alloc (built : Built state files root contents)
    (few : contents.length + 2 ≤ ninodes) :
    Ends fails (ialloc tFile) state fun inum last => inum = contents.length + 2 ∧ ∃ files',
      Built last files' root (contents ++ [[]]) := by
  refine (ialloc_ends built.holds (by rw [built.freeinode]; omega)
    (by rw [built.freeinode]; exact few) (by decide)).mono ?_
  rintro inum last ⟨rfl, files', holds, stored, others, freeinode, freeblock⟩
  rw [built.freeinode] at stored others
  refine ⟨built.freeinode, files', holds, by simp [freeinode, built.freeinode],
    others _ _ _ (by unfold rootino; omega) built.directory, ?_, ?_⟩
  · intro index other isStored
    rcases Nat.lt_trichotomy index contents.length with before | rfl | behind
    · refine others _ _ _ (by omega) (built.stored index other ?_)
      rwa [getElem?_append_left before] at isStored
    · simp only [getElem?_concat_length, some.injEq] at isStored
      rwa [← isStored]
    · rw [getElem?_eq_none (by simp; omega)] at isStored
      cases isStored
  · rw [freeblock, built.count, blocksOf_append]
    rfl

/-- The calls of `read` for the last file. -/
theorem Built.appendReads {bytes : List UInt8}
    (built : Built state files root (contents ++ [bytes])) (reads : List (List UInt8))
    (small : ¬ fails → (bytes ++ reads.flatten).length ≤ maxfile * bsize)
    (room : ¬ fails → dataStart + blocksFor root.length + blocksOf contents +
      blocksFor (bytes ++ reads.flatten).length ≤ fssize) :
    Ends fails (each (iappend (contents.length + 2)) reads) state fun _ last => ∃ files',
      Built last files' root (contents ++ [bytes ++ reads.flatten]) := by
  induction reads generalizing state files bytes with
  | nil =>
    rw [flatten_nil, append_nil]
    exact .pure ⟨files, built⟩
  | cons chunk reads ih =>
    have length : (bytes ++ (chunk :: reads).flatten).length =
        bytes.length + chunk.length + reads.flatten.length := by
      simp [Nat.add_assoc]
    rw [length] at small room
    have more := blocksFor_mono
      (Nat.le_add_right (bytes.length + chunk.length) reads.flatten.length)
    refine .andThen (built.appendLast (fun works => by have := small works; omega)
      fun works => by have := room works; omega) ?_
    rintro _ middle ⟨files', built'⟩
    have whole : bytes ++ (chunk :: reads).flatten = bytes ++ chunk ++ reads.flatten := by simp
    rw [whole]
    refine ih built' (fun works => ?_) fun works => ?_
    · simpa [Nat.add_assoc] using small works
    · rw [length_append, length_append]
      exact room works

/-- The loop of `main`. -/
theorem addFile_ends {done rest : List Input} {file : Input}
    (few : (done ++ file :: rest).length < ninodes)
    (built : Built state files (rootBytes done) (done.map Input.bytes))
    (fits : ¬ fails → Fits (done ++ file :: rest)) :
    Ends fails (addFile rootino file) state fun _ last => ∃ files',
      Built last files' (rootBytes (done ++ [file])) ((done ++ [file]).map Input.bytes) := by
  have isFile : file ∈ done ++ file :: rest :=
    mem_append_right _ mem_cons_self
  have length : (done ++ file :: rest).length = done.length + 1 + rest.length := by
    simp only [length_append, length_cons]
    omega
  have rootLength := length_rootBytes done
  have total : usedFor (done ++ file :: rest) = dataStart +
      blocksFor (16 * (done.length + 1 + rest.length + 2)) + (blocksOf (done.map Input.bytes) +
        (blocksFor file.bytes.length + blocksOf (rest.map Input.bytes))) := by
    rw [usedFor, length, map_append, blocksOf_append, map_cons,
      ← singleton_append, blocksOf_append, blocksOf_singleton]
  have more := blocksFor_mono (show 16 * (done.length + 2) + 16 ≤
    16 * (done.length + 1 + rest.length + 2) by omega)
  have limit : bsize * 8 ≤ fssize := by decide
  refine .bind (ends_assert (fun works => (fits works).slash file isFile) fun _ => ?_)
  refine .andThen (built.alloc (by rw [length_map]; omega)) ?_
  rintro inum middle ⟨rfl, files₁, built₁⟩
  rw [length_map]
  refine .andThen (built₁.appendRoot _ (fun works => ?_) fun works => ?_) ?_
  · rw [length_direntBytes]
    unfold ninodes at few
    have : maxfile * bsize = 129024 := rfl
    omega
  · have used := (fits works).used
    rw [rootLength, length_direntBytes, blocksOf_append, blocksOf_singleton]
    have : blocksFor ([] : List UInt8).length = 0 := rfl
    omega
  rintro _ middle ⟨files₂, built₂⟩
  rw [← rootBytes_concat] at built₂
  have newLength : (rootBytes (done ++ [file])).length = 16 * (done.length + 2) + 16 := by
    rw [length_rootBytes, length_append, length_singleton]
    omega
  have small : ¬ fails → ([] ++ file.reads.flatten).length ≤ maxfile * bsize := fun works =>
    (fits works).small file isFile
  have appends := built₂.appendReads file.reads small fun works => ?_
  · rw [length_map] at appends
    rw [map_append]
    exact appends
  · have used := (fits works).used
    rw [newLength, nil_append]
    have : blocksFor file.reads.flatten.length = blocksFor file.bytes.length := rfl
    omega

theorem each_addFile_ends {inputs done rest : List Input} (split : inputs = done ++ rest)
    (few : inputs.length < ninodes)
    (built : Built state files (rootBytes done) (done.map Input.bytes))
    (fits : ¬ fails → Fits inputs) :
    Ends fails (each (addFile rootino) rest) state fun _ last => ∃ files',
      Built last files' (rootBytes inputs) (inputs.map Input.bytes) := by
  induction rest generalizing state files done with
  | nil =>
    rw [append_nil] at split
    rw [split]
    exact .pure ⟨files, built⟩
  | cons file rest ih =>
    rw [split] at few fits
    refine .andThen (addFile_ends few built fits) ?_
    rintro _ middle ⟨files', built'⟩
    exact ih (by rw [split]; simp) built'

end

/-! ## The start -/

/-- All sectors are zeroed. -/
theorem each_wsect_returns (count : Nat) (state : State)
    (zero : state.image = fun _ => Block.zero) :
    Returns (each (fun sec => wsect sec Block.zero) (List.range' state.length count)) state ()
      { state with length := state.length + count } [] := by
  induction count generalizing state with
  | zero => exact .pure
  | succ count ih =>
    have next := ih { state with length := state.length + 1 } zero
    refine Returns.step .modify ?_ rfl
    have image : update state.image state.length Block.zero = state.image := by
      rw [zero]
      exact update_eq_self ..
    rw [image, Nat.max_eq_right (Nat.le_succ _)]
    rw [show state.length + 1 + count = state.length + (count + 1) by omega] at next
    exact next

/-- The volume before the first file. -/
def blankFiles : Files where
  node := fun _ => .ofBlock Block.zero
  block := fun _ => Block.zero

/-- The state once the super block is written. -/
def State.blank : State where
  image := Function.update (fun _ => Block.zero) 1 superblock
  length := fssize
  freeblock := dataStart
  usedblocks := dataStart
  freeinode := 1

theorem address_blankFiles (place : Place) : blankFiles.address place = 0 := by
  refine address_of_free ?_ place.2
  rintro ⟨-, used⟩
  exact used Block.half_zero

theorem blank_image_of_ne {number : Nat} (different : number ≠ 1) :
    State.blank.image number = Block.zero := by
  rw [State.blank]
  dsimp only
  rw [update_of_ne different]

theorem blank_holds : Holds State.blank blankFiles none where
  length := rfl
  used := rfl
  start := Nat.le_refl _
  top := by decide
  node := by
    intro inum inside _
    rfl
  block := by
    intro number data
    rw [dataStart_eq] at data
    exact blank_image_of_ne (by omega)
  zero := by
    intro number above
    have : dataStart ≤ number := above
    rw [dataStart_eq] at this
    exact blank_image_of_ne (by omega)
  owns := by
    refine ⟨fun _ present => absurd (address_blankFiles _) present, ?_⟩
    intro number
    constructor
    · rintro ⟨after, before⟩
      exact absurd before (Nat.not_lt.mpr after)
    · rintro ⟨nonzero, place, isNumber⟩
      rw [address_blankFiles] at isNumber
      exact absurd isNumber.symm nonzero
  fresh := fun _ _ => Block.half_zero
  super := by
    rw [State.blank]
    dsimp only
    rw [update_self]
  bitmap := blank_image_of_ne (by decide)

/-! ## The image -/

/-- The image of some files: the super block, the inodes, the data blocks and the
bitmap. -/
structure Made (image : Nat → Block) (files : Files) (inputs : List Input) : Prop where
  super : image 1 = superblock
  node : ∀ inum ≤ ninodes, Dinode.ofBlock (image (iblock inum)) = files.node inum
  block : ∀ number, dataStart ≤ number → image number = files.block number
  used : usedFor inputs < bsize * 8
  bitmap : image (dataStart - 2) = bitmap (usedFor inputs)
  bitmap' : image (dataStart - 1) = Block.zero
  owns : Owns files.address {number | dataStart ≤ number ∧ number < usedFor inputs}
  fresh : ∀ inum, inum = 0 ∨ inputs.length + 2 ≤ inum → (files.node inum).type = 0
  root : ∃ addrs, files.node rootino =
    ⟨tDir, 0, 0, 1, BitVec.ofNat 32 ((16 * (inputs.length + 2) / bsize + 1) * bsize), addrs⟩
  covered : files.CoveredTo rootino (16 * (inputs.length + 2))
  contents : ∀ position, position < 16 * (inputs.length + 2) →
    files.byteAt rootino position = (rootBytes inputs).getD position 0
  stored : ∀ index file, inputs[index]? = some file →
    Stored files (index + 2) tFile file.bytes

theorem makeRoot_ends {fails : Prop} :
    Ends fails makeRoot State.blank fun root last => root = rootino ∧ ∃ files,
      Built last files (rootBytes []) [] := by
  refine .andThen (ialloc_ends blank_holds (by decide) (by decide) (by decide)) ?_
  rintro root state ⟨rfl, files, holds, stored, -, freeinode, freeblock⟩
  refine .bind (ends_assert (fun _ => rfl) fun _ => ?_)
  have built : Built state files [] [] :=
    ⟨holds, freeinode, stored, fun _ _ isStored => by simp at isStored, freeblock⟩
  refine .andThen (built.appendRoot (direntBytes rootino [46]) (fun _ => by simp; decide)
    fun _ => by rw [length_direntBytes]; decide) ?_
  rintro _ state₁ ⟨files₁, built₁⟩
  refine .andThen (built₁.appendRoot (direntBytes rootino [46, 46])
    (fun _ => by simp; decide) fun _ => by
      rw [nil_append]; decide) ?_
  rintro _ state₂ ⟨files₂, built₂⟩
  refine .pure ⟨rfl, files₂, ?_⟩
  rwa [nil_append] at built₂

theorem finish_ends {fails : Prop} {inputs : List Input} {state : State} {files : Files}
    (built : Built state files (rootBytes inputs) (inputs.map Input.bytes))
    (fits : ¬ fails → Fits inputs) :
    Ends fails (finish rootino) state fun _ last => ∃ files, Made last.image files inputs := by
  have rootLength := length_rootBytes inputs
  have count : state.freeblock = usedFor inputs := by
    rw [built.count, rootLength, usedFor]
  obtain ⟨addrs, node⟩ := built.directory.node
  have size : (files.node rootino).size.toNat = 16 * (inputs.length + 2) := by
    have bound := built.directory.covered.le
    rw [node, ← rootLength]
    exact toNat_ofNat_of_lt (lt_of_le_of_lt bound (by decide))
  refine .andThen (rinode_ends built.holds (by decide)) ?_
  rintro _ _ ⟨rfl, isState⟩
  rw [isState, size]
  set rounded := files.setNode rootino { files.node rootino with
    size := BitVec.ofNat 32 ((16 * (inputs.length + 2) / bsize + 1) * bsize) } with isRounded
  have address : rounded.address = files.address := address_setNode rfl Iff.rfl
  refine .andThen (winode_ends built.holds (by decide) (fun _ isOther => by cases isOther) address
    fun free => ?_) ?_
  · rw [built.freeinode] at free
    exact absurd free (by unfold rootino; omega)
  rintro _ last ⟨holds, freeblock, freeinode⟩
  have used : last.usedblocks = usedFor inputs := by
    rw [holds.used, freeblock, count]
  refine .bind (.get (.bind (ends_assert (fun works => ?_) fun inside => .modify ?_)))
  · rw [used]
    exact (fits works).used
  rw [used] at inside
  have isBitmap : ninodes / ipb + 3 = dataStart - 2 := rfl
  have kept {number : Nat} (different : number ≠ dataStart - 2) :
      update last.image (ninodes / ipb + 3) (Mkfs.bitmap last.usedblocks) number =
        last.image number := by
    rw [isBitmap, update_of_ne different]
  refine ⟨rounded, ⟨?_, ?_, ?_, inside, ?_, ?_, ?_, ?_, ?_, ?_, ?_, ?_⟩⟩
  · dsimp only
    rw [kept (by decide), holds.super]
  · intro inum inside
    dsimp only
    rw [kept, ← holds.node inum inside (by simp)]
    · rfl
    · rw [iblock_eq, dataStart_eq]
      unfold ninodes at inside
      omega
  · intro number data
    dsimp only
    rw [kept (by have := dataStart_eq; omega), holds.block number data]
  · dsimp only
    rw [isBitmap, update_self, used]
  · dsimp only
    rw [kept (by decide), holds.bitmap]
  · have owns := holds.owns
    rwa [freeblock, count] at owns
  · intro inum free
    refine holds.fresh inum (free.imp_right fun above => ?_)
    rw [freeinode, built.freeinode, length_map]
    exact above
  · refine ⟨addrs, ?_⟩
    rw [setNode_node, update_self, node]
  · rw [CoveredTo.congr address, ← rootLength]
    exact built.directory.covered
  · intro position inside
    exact built.directory.contents position (by rw [rootLength]; exact inside)
  intro index file isFile
  have stored := built.stored index file.bytes (by rw [getElem?_map, isFile]; rfl)
  refine stored.congr ?_ (fun _ => by rw [address]) fun _ _ => by rw [byteAt_setNode address]
  rw [setNode_node, update_of_ne (by unfold rootino; omega)]

theorem main_ends {fails : Prop} {inputs : List Input} (few : inputs.length < ninodes)
    (fits : ¬ fails → Fits inputs) :
    Ends fails (main inputs) State.start fun _ last => ∃ files, Made last.image files inputs := by
  refine .bind (.get (.bind (ends_assert (fun _ => rfl) fun _ => ?_)))
  have zeroed := each_wsect_returns fssize State.start rfl
  rw [show State.start.length = 0 from rfl, ← range_eq_range'] at zeroed
  refine .bind (.of_returns zeroed (fun _ _ => trivial) ?_)
  refine .bind (.modify ?_)
  refine .andThen makeRoot_ends ?_
  rintro _ state ⟨rfl, files, built⟩
  refine .andThen (each_addFile_ends (nil_append inputs).symm few built fits) ?_
  rintro _ last ⟨files', built'⟩
  exact finish_ends built' fits

end XEditor.Fs.Mkfs
