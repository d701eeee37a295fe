import XEditor.Gui.FileOperations

/-!
# Following directory entries

The file list goes to another directory when one of its entries is clicked.  It
keeps the way there as a path from the root.  Whether the entry is a directory is
asked of the entry of the root that has the same name, a tab with that label is
shown instead, and the parent of every directory is taken to be the root.
-/

namespace XEditor.Gui

open List Option Kernel Kernel.State Run Text

/-! ## Calls that change no file -/

variable {path : Path} {names : List Name}

section

variable {state result : State}

variable (orphans : state.OrphansHeld)
include orphans

theorem stat_state {type : Option FileType} (called : stat state path = some (result, type)) :
    result = state := by
  obtain ⟨⟨opened, fd⟩, openCall, called⟩ := bind_eq_some_iff.mp called
  obtain ⟨closed, -, failed⟩ := sysClose_opened orphans rfl openCall
  dsimp only at called
  split at called
  · rename_i negative
    cases called
    exact failed negative
  · obtain ⟨found, -, called⟩ := bind_eq_some_iff.mp called
    cases called
    exact closed

theorem listLoop_state {entries : List Dirent}
    (called : listLoop path state entries = some (result, names)) : result = state := by
  induction entries generalizing state names with
  | nil =>
    cases called
    rfl
  | cons entry entries ih =>
    rw [listLoop] at called
    split at called
    · exact ih orphans called
    obtain ⟨⟨after, type⟩, statCall, listed⟩ := bind_eq_some_iff.mp called
    obtain rfl := stat_state orphans statCall
    obtain ⟨⟨last, others⟩, rest, same⟩ := bind_eq_some_iff.mp listed
    cases same
    exact ih orphans rest

theorem listDir_state (called : listDir state path = some (result, names)) : result = state := by
  obtain ⟨⟨opened, fd⟩, openCall, called⟩ := bind_eq_some_iff.mp called
  obtain ⟨closed, stillHeld, -⟩ := sysClose_opened orphans rfl openCall
  obtain ⟨entries, -, called⟩ := bind_eq_some_iff.mp called
  obtain ⟨⟨last, others⟩, listed, same⟩ := bind_eq_some_iff.mp called
  obtain rfl := listLoop_state stillHeld listed
  cases same
  exact closed

theorem textframeReadFile_state {text loaded : Textframe} {filename : Path} {code : Int}
    (called : textframeReadFile state text filename = some (result, loaded, code)) :
    result = state := by
  obtain ⟨⟨opened, fd⟩, openCall, called⟩ := bind_eq_some_iff.mp called
  obtain ⟨closed, -, failed⟩ := sysClose_opened orphans (by decide) openCall
  dsimp only at called
  split at called
  · rename_i negative
    cases called
    exact failed negative
  · obtain ⟨chunks, -, read, -, called⟩ := bind₂_eq_some_iff.mp called
    cases called
    exact closed

end

/-! ## One click -/

section

variable {manager next : BufferManager} {filename : Name} {outside : Outside}

variable (orphans : manager.kernel.OrphansHeld)
include orphans

theorem updateFileList_kernel (updated : fileListBufferUpdateFileList manager = some next) :
    next.kernel = manager.kernel ∧ next.fileList.path = manager.fileList.path := by
  obtain ⟨⟨counting, counted⟩, firstPass, updated⟩ := bind_eq_some_iff.mp updated
  obtain rfl := listDir_state orphans firstPass
  obtain ⟨⟨listing, listed⟩, secondPass, updated⟩ := bind_eq_some_iff.mp updated
  obtain rfl := listDir_state orphans secondPass
  dsimp only at updated
  split at updated
  · cases updated
  · cases updated
    exact ⟨rfl, rfl⟩

theorem canOpenTab_kernel {unset isFile : Bool} {kernel : State}
    (called : canOpenTab manager filename unset = some (kernel, isFile)) :
    kernel = manager.kernel := by
  rw [canOpenTab] at called
  split at called
  · obtain ⟨⟨after, isDir⟩, probed, same⟩ := map_eq_some_iff.mp called
    cases same
    exact fileIsDir_state orphans probed
  · cases called
    rfl

theorem openTab_kernel (called : openTab manager filename outside = some next) :
    next.kernel = manager.kernel ∧ next.fileList.path = manager.fileList.path := by
  obtain ⟨⟨kernel, text, code⟩, read, called⟩ := bind_eq_some_iff.mp called
  obtain rfl := textframeReadFile_state orphans read
  cases called
  exact ⟨rfl, rfl⟩

/-- A click changes no file.  It changes the path of the list if it enters a
directory, and only then. -/
theorem openFile_path (called : fileSwitchBarOpenFile manager filename outside = some next) :
    next.kernel = manager.kernel ∧ next.fileList.path =
      if entersDirectory manager filename outside = some true then
        enteredPath manager.fileList.path filename
      else manager.fileList.path := by
  obtain ⟨found, isFound, called⟩ := bind_eq_some_iff.mp called
  cases found with
  | some i =>
    obtain ⟨file, -, called⟩ := bind_eq_some_iff.mp called
    cases called
    simp [entersDirectory, isFound]
  | none =>
    obtain ⟨⟨kernel, isFile⟩, can, called⟩ := bind_eq_some_iff.mp called
    obtain rfl := canOpenTab_kernel orphans can
    cases isFile with
    | true =>
      have stays : entersDirectory manager filename outside = some false := by
        simp [entersDirectory, isFound, can]
      rw [stays]
      exact openTab_kernel orphans called
    | false =>
      obtain ⟨⟨probed, isDir⟩, probing, called⟩ := bind_eq_some_iff.mp called
      obtain rfl := fileIsDir_state orphans probing
      have enters : entersDirectory manager filename outside = some isDir := by
        simp [entersDirectory, isFound, can, probing]
      rw [enters]
      cases isDir with
      | true =>
        have moved : BufferManager.kernel { manager with fileList := { manager.fileList with
            path := enteredPath manager.fileList.path filename } } |>.OrphansHeld := orphans
        exact updateFileList_kernel moved called
      | false =>
        cases called
        exact ⟨rfl, rfl⟩

end

/-! ## Following the clicks -/

/-- A click on an entry, with what it gets from elsewhere. -/
structure Click where
  name : Name
  outside : Outside

/-- A click on an entry of a directory that is a directory itself, and the
directory that the entry leads to. -/
def clickDirectory (state : BufferManager × Nat) (click : Click) :
    Option (BufferManager × Nat) := do
  let target ← child state.1.kernel state.2 click.name
  let inode ← state.1.kernel.inode? target
  if inode.type = .dir ∧ IsEntryName click.name then do
    let next ← fileSwitchBarOpenFile state.1 click.name click.outside
    some (next, target)
  else none

/-- The path of the list leads to a directory, and with a name behind it fits into
the buffers of 512 bytes. -/
def Denotes (manager : BufferManager) (dir : Nat) : Prop :=
  namei manager.kernel manager.fileList.path = some (some dir) ∧
    manager.fileList.path.length + 16 ≤ 512

/-- The list follows a click: it enters the directory, which is not the parent of
one other than the root, and the path has room for the name; or it stays where it
is, and so does the entry. -/
def Follows (state : BufferManager × Nat) (click : Click) : Prop :=
  if entersDirectory state.1 click.name click.outside = some true then
    (click.name = dotDotName → child state.1.kernel state.2 dotDotName = some rootino) ∧
      (click.name ≠ dotName → click.name ≠ dotDotName →
        state.1.fileList.path.length + click.name.length + 17 ≤ 512)
  else child state.1.kernel state.2 click.name = some state.2

/-- The list shows a directory, with its names on the way from the root. -/
structure ListAt (manager : BufferManager) (names : List Name) (dir : Nat) : Prop where
  wf : manager.kernel.WellFormed
  dots : ∀ inum, IsDir manager.kernel inum → child manager.kernel inum dotName = some inum
  cwd : manager.kernel.cwd = rootino
  path : manager.fileList.path = listPath names
  directories : ∀ directory ∈ names, IsEntryName directory
  walked : resolve manager.kernel rootino names = some dir

theorem ListAt.namei_path {manager : BufferManager} {dir : Nat} (shown : ListAt manager names dir) :
    namei manager.kernel manager.fileList.path = some (some dir) := by
  have starts : startInum manager.kernel (listPath names) = rootino := by
    rw [startInum, shown.cwd]
    split <;> rfl
  rw [namei_eq_some_iff, shown.path, starts, elements_listPath shown.directories]
  exact shown.walked

/-- The path leads where the entry does exactly when the list follows the click. -/
theorem clickDirectory_follows {state next : BufferManager × Nat} {click : Click}
    (shown : ListAt state.1 names state.2) (room : state.1.fileList.path.length + 16 ≤ 512)
    (clicked : clickDirectory state click = some next) :
    (Denotes next.1 next.2 ↔ Follows state click) ∧
      (Denotes next.1 next.2 → ∃ names, ListAt next.1 names next.2) := by
  obtain ⟨target, leads, inode, -, clicked⟩ := bind₂_eq_some_iff.mp clicked
  split at clicked
  case isFalse => cases clicked
  case isTrue isEntry =>
  obtain ⟨manager, opened, clicked⟩ := bind_eq_some_iff.mp clicked
  cases clicked
  obtain ⟨kernel, path⟩ := openFile_path shown.wf.orphans opened
  -- Wherever the list goes, it shows one directory, and that is the entry's or not.
  have arrives {names : List Name} {dir : Nat} (isPath : manager.fileList.path = listPath names)
      (areNames : ∀ directory ∈ names, IsEntryName directory)
      (walked : resolve state.1.kernel rootino names = some dir)
      (follows : Follows state click ↔
        dir = target ∧ manager.fileList.path.length + 16 ≤ 512) :
      (Denotes manager target ↔ Follows state click) ∧
        (Denotes manager target → ∃ names, ListAt manager names target) := by
    have arrived : ListAt manager names dir :=
      ⟨kernel ▸ shown.wf, kernel ▸ shown.dots, kernel ▸ shown.cwd, isPath, areNames,
        kernel ▸ walked⟩
    have denotes : Denotes manager target ↔
        dir = target ∧ manager.fileList.path.length + 16 ≤ 512 := by
      rw [Denotes, arrived.namei_path, some.injEq, some.injEq]
    rw [follows]
    exact ⟨denotes, fun holds => ⟨names, (denotes.mp holds).1 ▸ arrived⟩⟩
  by_cases enters : entersDirectory state.1 click.name click.outside = some true
  · rw [if_pos enters, enteredPath] at path
    by_cases isDot : click.name = dotName
    · rw [if_pos isDot] at path
      refine arrives (path.trans shown.path) shown.directories shown.walked ?_
      rw [isDot, shown.dots _ (isDir_of_child leads)] at leads
      rw [Follows, if_pos enters, path, isDot]
      exact iff_of_true ⟨fun same => absurd same (by decide), fun other => absurd rfl other⟩
        ⟨some.inj leads, room⟩
    · rw [if_neg isDot] at path
      by_cases isDotDot : click.name = dotDotName
      · rw [if_pos isDotDot] at path
        refine @arrives [] rootino path (by simp) rfl ?_
        rw [Follows, if_pos enters, path, ← isDotDot, leads, some.injEq]
        constructor
        · exact fun follows => ⟨(follows.1 rfl).symm, by decide⟩
        · exact fun arrived => ⟨fun _ => arrived.1.symm, fun _ other => absurd rfl other⟩
      · rw [if_neg isDotDot] at path
        have isPath : manager.fileList.path = listPath (names ++ [click.name]) := by
          rw [path, shown.path, listPath, listPath]
          simp
        have areNames : ∀ directory ∈ names ++ [click.name], IsEntryName directory := by
          intro directory isIn
          rcases mem_append.mp isIn with old | new
          · exact shown.directories directory old
          · exact mem_singleton.mp new ▸ isEntry.2
        have walked : resolve state.1.kernel rootino (names ++ [click.name]) = some target := by
          rw [resolve_concat, shown.walked]
          exact leads
        refine arrives isPath areNames walked ?_
        rw [Follows, if_pos enters, path, length_append, length_append]
        constructor
        · intro follows
          have fits := follows.2 isDot isDotDot
          exact ⟨rfl, by omega⟩
        · rintro ⟨-, fits⟩
          exact ⟨fun other => absurd other isDotDot, fun _ _ => by omega⟩
  · rw [if_neg enters] at path
    refine arrives (path.trans shown.path) shown.directories shown.walked ?_
    rw [Follows, if_neg enters, path, leads, some.injEq, eq_comm]
    exact ⟨fun same => ⟨same, room⟩, fun both => both.1⟩

/-- Along a sequence of clicks on directories, from the root on, the path of the
list leads to the directory that the clicked names lead to, after every click,
exactly when the list follows every click. -/
theorem clicks_followed_iff {start : BufferManager} (wf : start.kernel.WellFormed)
    (dots : ∀ inum, IsDir start.kernel inum → child start.kernel inum dotName = some inum)
    (cwd : start.kernel.cwd = rootino) (atRoot : start.fileList.path = [])
    (clicks : List Click) :
    (∀ count state, run clickDirectory (start, rootino) (clicks.take count) = some state →
      Denotes state.1 state.2) ↔
    ∀ before click after, clicks = before ++ click :: after → ∀ state next,
      run clickDirectory (start, rootino) before = some state →
        clickDirectory state click = some next → Follows state click := by
  have initial : ListAt start [] rootino := ⟨wf, dots, cwd, atRoot, by simp, rfl⟩
  refine @run_holds_iff _ _ clickDirectory
    (fun state => (∃ names, ListAt state.1 names state.2) ∧
      state.1.fileList.path.length + 16 ≤ 512)
    (fun state => Denotes state.1 state.2) Follows ?_ ?_ (start, rootino) ⟨⟨[], initial⟩, ?_⟩ clicks
  · rintro state ⟨⟨names, shown⟩, room⟩
    exact ⟨shown.namei_path, room⟩
  · rintro state click next ⟨⟨names, shown⟩, room⟩ clicked
    obtain ⟨follows, arrives⟩ := clickDirectory_follows shown room clicked
    exact ⟨follows, fun denotes => ⟨arrives denotes, denotes.2⟩⟩
  · rw [atRoot]
    decide

/-- The directories `d` and `d/d`. -/
def nested : State where
  inodes := [
    none,
    some ⟨.dir, 2, [⟨1, dotName⟩, ⟨1, dotDotName⟩, ⟨2, [100]⟩], []⟩,
    some ⟨.dir, 2, [⟨2, dotName⟩, ⟨1, dotDotName⟩, ⟨3, [100]⟩], []⟩,
    some ⟨.dir, 1, [⟨3, dotName⟩, ⟨2, dotDotName⟩], []⟩]
  cwd := 1
  ofile := List.replicate 100 none
  heldElsewhere := []
  ftableFree := 100

theorem nested_wellFormed : nested.WellFormed :=
  State.wellFormed_of_checked (by decide) (by decide) (by decide) (by decide)

instance (state : BufferManager × Nat) (click : Click) : Decidable (Follows state click) :=
  inferInstanceAs (Decidable (ite _ _ _))

/-- The window on the root of these directories. -/
def listedNested : BufferManager :=
  (makeBufferManager nested ⟨0, 0, 0⟩ ⟨0, 0, 0⟩).get (by decide)

/-- Into `d`, into `d/d`. -/
def intoNested : List Click :=
  [⟨[100], nothing⟩, ⟨[100], nothing⟩]

/-- Both directories are entered. -/
theorem clicks_followed_nested :
    ∃ state, run clickDirectory (listedNested, rootino) intoNested = some state ∧ state.2 = 3 ∧
      ∀ count state, run clickDirectory (listedNested, rootino) (intoNested.take count) =
        some state → Denotes state.1 state.2 := by
  have kernel : listedNested.kernel = nested := by decide
  have arrives : (run clickDirectory (listedNested, rootino) intoNested).map (·.2) = some 3 := by
    decide
  obtain ⟨state, ran, at3⟩ := map_eq_some_iff.mp arrives
  refine ⟨state, ran, at3, (clicks_followed_iff ?_ ?_ ?_ ?_ intoNested).mpr ?_⟩
  · exact kernel ▸ nested_wellFormed
  · rw [kernel]
    rintro inum ⟨inode, read, -⟩
    match inum, read with
    | 1, _ | 2, _ | 3, _ => decide
  · decide
  · decide
  have first : ∀ state ∈ run clickDirectory (listedNested, rootino) [],
      Follows state ⟨[100], nothing⟩ := by
    decide
  have second : ∀ state ∈ run clickDirectory (listedNested, rootino) [⟨[100], nothing⟩],
      Follows state ⟨[100], nothing⟩ := by
    decide
  intro before click after clicks_eq state next ran clicked
  rw [intoNested] at clicks_eq
  rcases before with _ | ⟨_, _ | ⟨_, rest⟩⟩
  · cases clicks_eq
    exact first state ran
  · cases clicks_eq
    exact second state ran
  · simp at clicks_eq

/-- The list is in `d/d`. -/
def inNested : BufferManager × Nat :=
  (run clickDirectory (listedNested, rootino) intoNested).get (by decide)

/-- The parent of `d/d` is taken to be the root. -/
theorem parent_not_followed :
    (∃ start, makeBufferManager nested ⟨0, 0, 0⟩ ⟨0, 0, 0⟩ = some start ∧
      run clickDirectory (start, rootino) [⟨[100], nothing⟩, ⟨[100], nothing⟩] = some inNested) ∧
    ∃ state, clickDirectory inNested ⟨dotDotName, nothing⟩ = some state ∧
      state.2 = 2 ∧ ¬ Denotes state.1 state.2 := by
  have made : makeBufferManager nested ⟨0, 0, 0⟩ ⟨0, 0, 0⟩ = some listedNested := (some_get _).symm
  have arrived : run clickDirectory (listedNested, rootino) intoNested = some inNested :=
    (some_get _).symm
  have returns : (clickDirectory inNested ⟨dotDotName, nothing⟩).map (fun state =>
      (state.2, namei state.1.kernel state.1.fileList.path)) = some (2, some (some rootino)) := by
    decide
  obtain ⟨state, clicked, reached⟩ := map_eq_some_iff.mp returns
  rw [Prod.mk.injEq] at reached
  refine ⟨⟨listedNested, made, arrived⟩, state, clicked, reached.1, ?_⟩
  rw [Denotes, reached.1, reached.2]
  exact fun denotes => absurd denotes.1 (by decide)

end XEditor.Gui
