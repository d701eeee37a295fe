import XEditor.Fs.Bio

/-!
# The log

Source `log.c`.  A transaction writes the blocks it changes to the log, commits by
writing the header of the log, installs the blocks at their home locations and
erases the header.  In `log_write` and `bwrite` the data of a buffer is an
argument, as in `bio.c`.
-/

namespace XEditor.Fs

open List Option Function Program Store

/-! ## Source -/

/-- Source `LOGSIZE`. -/
def logsize : Nat := 10

/-- `struct superblock`. -/
structure Superblock where
  size : BitVec 32
  nblocks : BitVec 32
  ninodes : BitVec 32
  nlog : BitVec 32
  deriving DecidableEq

/-- The bytes of the super block as the structure. -/
def Superblock.ofBlock (block : Block) : Superblock where
  size := block.word 0
  nblocks := block.word 1
  ninodes := block.word 2
  nlog := block.word 3

/-- The disk and the buffers are a part of the store. -/
def Store.bioPart : Part Store Bio where
  get := Store.bio
  set := fun store bio => { store with bio }

instance : MonadLift (Program Bio Halt Event) (Program Store Halt Event) where
  monadLift := Program.on Store.bioPart

/-- Source `readsb`. -/
def readsb : Code Bio Superblock := do
  let data ← bread 1
  brelse 1
  pure (.ofBlock data)

/-- Change the log. -/
def modifyLog (change : Log → Log) : Code Store Unit :=
  Program.modify fun store => { store with log := change store.log }

/-- The body of the loop of `install_trans`: one logged block goes home. -/
def installBlock (start : Nat) (entry : Nat × Nat) : Code Bio Unit := do
  let data ← bread (start + entry.2 + 1)
  let _ ← bread entry.1
  bwrite entry.1 data
  brelse (start + entry.2 + 1)
  brelse entry.1

/-- Source `install_trans`. -/
def installTrans : Code Store Unit := do
  let store ← Program.get
  (each (installBlock store.log.start) store.log.sectors.zipIdx : Code Bio Unit)

/-- The sectors in a header block. -/
def headerSectors (block : Block) : List Nat :=
  (List.range (block.word 0).toInt.toNat).map fun index => (block.word (index + 1)).toNat

/-- Source `read_head`. -/
def readHead : Code Store Unit := do
  let store ← Program.get
  let data ← bread store.log.start
  modifyLog fun log => { log with sectors := headerSectors data }
  brelse store.log.start

/-- A header block with its number of sectors and the sectors written over. -/
def header (block : Block) (sectors : List Nat) : Block :=
  (block.setWord 0 (BitVec.ofNat 32 sectors.length)).setWords 1 (sectors.map (BitVec.ofNat 32))

/-- Source `write_head`. -/
def writeHead : Code Store Unit := do
  let store ← Program.get
  let data ← bread store.log.start
  bwrite store.log.start (header data store.log.sectors)
  brelse store.log.start

/-- Source `recover_from_log`. -/
def recoverFromLog : Code Store Unit := do
  readHead
  installTrans
  modifyLog fun log => { log with sectors := [] }
  writeHead

/-- Source `initlog`.  The header is shorter than a block, so the first check
passes. -/
def initlog : Code Store Unit := do
  let superblock ← readsb
  modifyLog fun log =>
    { log with
      start := (superblock.size - superblock.nlog).toNat
      size := superblock.nlog.toNat }
  recoverFromLog

/-- Source `begin_trans`. -/
def beginTrans : Code Store Unit := do
  let store ← Program.get
  if store.log.busy then halt .sleep
  else modifyLog fun log => { log with busy := true }

/-- Source `commit_trans`. -/
def commitTrans : Code Store Unit := do
  let store ← Program.get
  if store.log.sectors ≠ [] then
    writeHead
    installTrans
    modifyLog fun log => { log with sectors := [] }
    writeHead
  modifyLog fun log => { log with busy := false }

/-- Source `log_write`. -/
def logWrite (sector : Nat) (data : Block) : Code Store Unit := do
  let store ← Program.get
  let log := store.log
  if logsize ≤ log.sectors.length ∨ log.size ≤ log.sectors.length + 1 then
    panic .tooBigTransaction
  else if !log.busy then panic .writeOutsideTrans
  else do
    let index := log.sectors.idxOf sector
    let _ ← bread (log.start + index + 1)
    bwrite (log.start + index + 1) data
    brelse (log.start + index + 1)
    if index = log.sectors.length then
      modifyLog fun log => { log with sectors := log.sectors ++ [sector] }
    Program.modify fun store => { store with bio := store.bio.setDirty sector data }

/-! ## Writes -/

/-- A disk after some of the events of a run. -/
def applyWrites (disk : Nat → Block) : List Event → Nat → Block
  | [] => disk
  | .write sector data :: events => applyWrites (Function.update disk sector data) events
  | .alloc _ _ :: events => applyWrites disk events

theorem applyWrites_append (disk : Nat → Block) (first second : List Event) :
    applyWrites disk (first ++ second) = applyWrites (applyWrites disk first) second := by
  induction first generalizing disk with
  | nil => rfl
  | cons event first ih =>
    cases event with
    | write sector data => exact ih _
    | alloc before block => exact ih _

/-- The sectors that a list of events writes. -/
def writtenSectors : List Event → List Nat
  | [] => []
  | .write sector _ :: events => sector :: writtenSectors events
  | .alloc _ _ :: events => writtenSectors events

variable {events : List Event} {sector : Nat} {store : Store} {sectors : List Nat}

theorem applyWrites_of_notMem {disk : Nat → Block} (absent : sector ∉ writtenSectors events) :
    applyWrites disk events sector = disk sector := by
  induction events generalizing disk with
  | nil => rfl
  | cons event events ih =>
    cases event with
    | alloc before block => exact ih absent
    | write other data =>
      rw [writtenSectors, mem_cons, not_or] at absent
      rw [applyWrites, ih absent.2, update_of_ne absent.1]

/-- Two disks that agree on a sector agree after the same writes. -/
theorem applyWrites_congr {disk disk' : Nat → Block}
    (same : sector ∈ writtenSectors events ∨ disk sector = disk' sector) :
    applyWrites disk events sector = applyWrites disk' events sector := by
  induction events generalizing disk disk' with
  | nil => exact same.resolve_left (not_mem_nil)
  | cons event events ih =>
    cases event with
    | alloc before block => exact ih same
    | write other data =>
      refine ih ?_
      by_cases isOther : sector = other
      · subst isOther
        exact .inr (by rw [update_self, update_self])
      · rw [update_of_ne isOther, update_of_ne isOther]
        refine same.imp_left fun isWritten => ?_
        exact (mem_cons.mp isWritten).resolve_left isOther

/-! ## What the parts do -/

/-- The device of a store. -/
def Store.device (store : Store) : Device :=
  store.bio.device

/-- The machine at boot. -/
def Store.boot (disk : Nat → Block) : Store where
  bio := .boot disk
  log := { start := 0, size := 0, busy := false, sectors := [] }

/-- The device after a list of writes. -/
@[simps -fullyApplied]
def Device.writes (device : Device) (events : List Event) : Device :=
  { device with
    view := applyWrites device.view events
    disk := applyWrites device.disk events
    pinned := device.pinned \ (writtenSectors events).toFinset }

theorem Device.writes_write (device : Device) (sector : Nat) (data : Block)
    (events : List Event) :
    (device.write sector data).writes events = device.writes (.write sector data :: events) := by
  refine Device.ext rfl rfl rfl ?_
  ext other
  simp [writtenSectors, and_assoc, and_left_comm]

theorem writtenSectors_append (first second : List Event) :
    writtenSectors (first ++ second) = writtenSectors first ++ writtenSectors second := by
  induction first with
  | nil => rfl
  | cons event first ih =>
    cases event with
    | write sector data => exact congrArg (sector :: ·) ih
    | alloc before block => exact ih

theorem Device.writes_append (device : Device) (first second : List Event) :
    device.writes (first ++ second) = (device.writes first).writes second := by
  refine Device.ext (applyWrites_append ..) (applyWrites_append ..) rfl ?_
  ext other
  simp [writtenSectors_append, and_assoc]

theorem lift_returns {α : Type} {program : Code Bio α} {value : α} {last : Bio}
    (returns : Returns program store.bio value last events) :
    Returns (liftM program : Code Store α) store value { store with bio := last } events :=
  Returns.on returns

/-- A sector outside the log. -/
def Log.Home (log : Log) (sector : Nat) : Prop :=
  sector < log.start ∨ log.start + log.size ≤ sector

theorem Log.Home.ne_start {log : Log} {sector : Nat} (home : log.Home sector)
    (pos : 0 < log.size) : sector ≠ log.start := by
  unfold Log.Home at home
  omega

/-- The writes that bring logged blocks home. -/
def homeWrites (view : Nat → Block) (start : Nat) (entries : List (Nat × Nat)) : List Event :=
  entries.map fun entry => .write entry.1 (view (start + entry.2 + 1))

theorem writtenSectors_homeWrites (view : Nat → Block) (start : Nat)
    (entries : List (Nat × Nat)) :
    writtenSectors (homeWrites view start entries) = entries.map Prod.fst := by
  induction entries with
  | nil => rfl
  | cons entry entries ih => exact congrArg (entry.1 :: ·) ih

/-- What some of the home writes change is logged. -/
theorem mem_of_written {view : Nat → Block} {start sector : Nat} {sectors : List Nat}
    {done : List Event} (isPrefix : done <+: homeWrites view start sectors.zipIdx)
    (isWritten : sector ∈ writtenSectors done) : sector ∈ sectors := by
  obtain ⟨rest, split⟩ := isPrefix
  have isWritten : sector ∈ writtenSectors (done ++ rest) := by
    rw [writtenSectors_append]
    exact mem_append_left _ isWritten
  rwa [split, writtenSectors_homeWrites, zipIdx_map_fst] at isWritten

theorem installBlock_returns {bio : Bio} {start : Nat} {entry : Nat × Nat}
    (free : bio.device.held = ∅) (apart : entry.1 ≠ start + entry.2 + 1)
    (room : (insert entry.1 (insert (start + entry.2 + 1) bio.device.pinned)).card ≤ nbuf) :
    ∃ last, Returns (installBlock start entry) bio () last
        [.write entry.1 (bio.device.view (start + entry.2 + 1))] ∧
      last.device = bio.device.write entry.1 (bio.device.view (start + entry.2 + 1)) := by
  set slot := start + entry.2 + 1
  obtain ⟨bio₁, reads, device₁⟩ := bread_returns bio slot (by simp [free])
    (by
      rw [free]
      exact (Finset.card_le_card (Finset.subset_insert _ _)).trans room)
  obtain ⟨bio₂, reads', device₂⟩ := bread_returns bio₁ entry.1 (by simp [device₁, free, apart])
    (by simpa [device₁, free, Finset.insert_union] using room)
  obtain ⟨bio₃, writes, device₃⟩ := bwrite_returns bio₂ entry.1 (by simp [device₂])
    (bio.device.view slot)
  obtain ⟨bio₄, releases, device₄⟩ := brelse_returns bio₃ slot (by simp [device₃, device₂, device₁])
  obtain ⟨last, releases', device₅⟩ := brelse_returns bio₄ entry.1
    (by simp [device₄, device₃, device₂, apart])
  refine ⟨last, reads.bind (reads'.bind (writes.bind (releases.bind releases'))), ?_⟩
  rw [device₅, device₄, device₃, device₂, device₁]
  refine Device.ext rfl rfl ?_ rfl
  ext other
  simp [free]
  tauto

/-- The loop of `install_trans`, for sectors outside the log. -/
theorem each_installBlock_returns (bio : Bio) (start size : Nat) (entries : List (Nat × Nat))
    (free : bio.device.held = ∅)
    (home : ∀ entry ∈ entries, entry.1 < start ∨ start + size ≤ entry.1)
    (fits : ∀ entry ∈ entries, entry.2 + 1 < size)
    (room : ∀ entry ∈ entries,
      (insert entry.1 (insert (start + entry.2 + 1) bio.device.pinned)).card ≤ nbuf) :
    ∃ last, Returns (each (installBlock start) entries) bio () last
        (homeWrites bio.device.view start entries) ∧
      last.device = bio.device.writes (homeWrites bio.device.view start entries) := by
  induction entries generalizing bio with
  | nil =>
    refine ⟨bio, .pure, Device.ext rfl rfl rfl ?_⟩
    simp [writtenSectors, homeWrites]
  | cons entry entries ih =>
    have isEntry : entry ∈ entry :: entries := mem_cons_self
    have outside := home entry isEntry
    have slot := fits entry isEntry
    obtain ⟨middle, installs, device⟩ := installBlock_returns free (by omega) (room entry isEntry)
    obtain ⟨last, rest, device'⟩ := ih middle (by rw [device]; exact free)
      (fun other isOther => home other (mem_cons_of_mem _ isOther))
      (fun other isOther => fits other (mem_cons_of_mem _ isOther))
      (fun other isOther => by
        rw [device]
        refine (Finset.card_le_card ?_).trans (room other (mem_cons_of_mem _ isOther))
        exact Finset.insert_subset_insert _
          (Finset.insert_subset_insert _ (Finset.erase_subset ..)))
    -- the home locations lie outside the log, so the later blocks are not disturbed
    have same : homeWrites middle.device.view start entries =
        homeWrites bio.device.view start entries := by
      refine map_congr_left fun other isOther => ?_
      have := fits other (mem_cons_of_mem _ isOther)
      rw [device, Device.write_view, update_of_ne (by omega)]
    rw [same] at rest device'
    refine ⟨last, installs.bind rest, ?_⟩
    rw [device', device, Device.writes_write]
    rfl

theorem installTrans_returns (store : Store) (free : store.device.held = ∅)
    (home : ∀ sector ∈ store.log.sectors, store.log.Home sector)
    (fits : store.log.sectors.length < store.log.size)
    (room : ∀ sector ∈ store.log.sectors, ∀ slot,
      (insert sector (insert slot store.device.pinned)).card ≤ nbuf) :
    ∃ last, Returns installTrans store () { store with bio := last }
        (homeWrites store.device.view store.log.start store.log.sectors.zipIdx) ∧
      last.device = store.device.writes
        (homeWrites store.device.view store.log.start store.log.sectors.zipIdx) := by
  obtain ⟨last, installs, device⟩ := each_installBlock_returns store.bio store.log.start
    store.log.size store.log.sectors.zipIdx free
    (fun entry isEntry => home entry.1 (fst_mem_of_mem_zipIdx isEntry))
    (fun entry isEntry => by
      have := snd_lt_of_mem_zipIdx isEntry
      omega)
    (fun entry isEntry => room entry.1 (fst_mem_of_mem_zipIdx isEntry) _)
  exact ⟨last, Returns.bind .get (lift_returns installs), device⟩

theorem writeHead_returns (store : Store) (free : store.device.held = ∅)
    (room : (insert store.log.start store.device.pinned).card ≤ nbuf) :
    ∃ last, Returns writeHead store () { store with bio := last }
        [.write store.log.start
          (header (store.device.view store.log.start) store.log.sectors)] ∧
      last.device = store.device.write store.log.start
        (header (store.device.view store.log.start) store.log.sectors) := by
  obtain ⟨bio₁, reads, device₁⟩ := bread_returns store.bio store.log.start
    (by rw [show store.bio.device.held = ∅ from free]; simp)
    (by rwa [show store.bio.device.held = ∅ from free, Finset.empty_union])
  obtain ⟨bio₂, writes, device₂⟩ := bwrite_returns bio₁ store.log.start (by simp [device₁])
    (header (store.device.view store.log.start) store.log.sectors)
  obtain ⟨last, releases, device₃⟩ := brelse_returns bio₂ store.log.start
    (by simp [device₂, device₁])
  refine ⟨last, Returns.bind .get ?_, ?_⟩
  · refine Returns.step (lift_returns reads) ?_ rfl
    refine Returns.step (lift_returns writes) ?_ rfl
    exact lift_returns releases
  rw [device₃, device₂, device₁]
  refine Device.ext rfl rfl ?_ rfl
  rw [Device.release_held, Device.write_held, Device.hold_held, Device.write_held,
    show store.bio.device.held = ∅ from free, show store.device.held = ∅ from free]
  simp

/-! ## Transactions -/

/-- The log during a transaction: the logged sectors are pinned, lie outside the log,
and the log holds what a read of them gives. -/
structure Store.Consistent (store : Store) : Prop where
  size_le : store.log.size ≤ logsize
  fits : store.log.sectors.length < store.log.size
  nodup : store.log.sectors.Nodup
  home : ∀ sector ∈ store.log.sectors, store.log.Home sector
  pinned : store.device.pinned = store.log.sectors.toFinset
  slots : ∀ entry ∈ store.log.sectors.zipIdx,
    store.device.view (store.log.start + entry.2 + 1) = store.device.view entry.1

/-- Add a sector to the logged ones. -/
def logged (sectors : List Nat) (sector : Nat) : List Nat :=
  if sector ∈ sectors then sectors else sectors ++ [sector]

theorem toFinset_logged (sectors : List Nat) (sector : Nat) :
    (logged sectors sector).toFinset = insert sector sectors.toFinset := by
  unfold logged
  split
  · rename_i isLogged
    rw [Finset.insert_eq_self.mpr (List.mem_toFinset.mpr isLogged)]
  · simp

theorem mem_logged {sector other : Nat} :
    other ∈ logged sectors sector ↔ other = sector ∨ other ∈ sectors := by
  rw [← List.mem_toFinset, toFinset_logged, Finset.mem_insert, List.mem_toFinset]

theorem nodup_logged (nodup : sectors.Nodup) (sector : Nat) : (logged sectors sector).Nodup := by
  unfold logged
  split
  · exact nodup
  · rename_i isNew
    exact nodup.append (nodup_singleton _) (by simpa using isNew)

theorem length_logged_le (sectors : List Nat) (sector : Nat) :
    (logged sectors sector).length ≤ sectors.length + 1 := by
  unfold logged
  split <;> simp

/-- The places in the log: the written sector has the place that `log_write` looks
up, and the others keep theirs. -/
theorem mem_zipIdx_logged (nodup : sectors.Nodup) {entry : Nat × Nat}
    (isEntry : entry ∈ (logged sectors sector).zipIdx) :
    entry = (sector, sectors.idxOf sector) ∨
      entry ∈ sectors.zipIdx ∧ entry.1 ≠ sector ∧ entry.2 ≠ sectors.idxOf sector := by
  obtain ⟨other, index⟩ := entry
  rw [mem_zipIdx_iff_getElem?] at isEntry
  by_cases isLogged : sector ∈ sectors
  · rw [logged, if_pos isLogged] at isEntry
    obtain ⟨inside, eq⟩ := List.getElem?_eq_some_iff.mp isEntry
    dsimp only at inside eq
    by_cases same : other = sector
    · left
      rw [← same, ← eq, nodup.idxOf_getElem]
    · refine .inr ⟨mem_zipIdx_iff_getElem?.mpr isEntry, same, fun place => same ?_⟩
      subst place
      rw [← eq, getElem_idxOf]
  · rw [logged, if_neg isLogged] at isEntry
    have last : sectors.idxOf sector = sectors.length := idxOf_eq_length isLogged
    rcases Nat.lt_or_ge index sectors.length with inside | atEnd
    · rw [getElem?_append_left inside] at isEntry
      refine .inr ⟨mem_zipIdx_iff_getElem?.mpr isEntry, ?_, by dsimp only; omega⟩
      rintro rfl
      exact isLogged (mem_of_getElem? isEntry)
    · dsimp only at isEntry
      rw [getElem?_append_right atEnd, getElem?_singleton] at isEntry
      obtain ⟨isLast, eq⟩ := ite_none_right_eq_some.mp isEntry
      left
      rw [← some.inj eq]
      congr 1
      omega

theorem logWrite_returns (consistent : store.Consistent) (sector : Nat)
    (isHeld : sector ∈ store.device.held) (home : ∀ other ∈ store.device.held, store.log.Home other)
    (busy : store.log.busy = true) (small : store.log.sectors.length + 1 < store.log.size)
    (room : ∀ slot, (insert slot (store.device.held ∪ store.device.pinned)).card ≤ nbuf)
    (data : Block) :
    ∃ last, Returns (logWrite sector data) store () last
        [.write (store.log.start + store.log.sectors.idxOf sector + 1) data] ∧
      last.log = { store.log with sectors := logged store.log.sectors sector } ∧
      last.device = (store.device.write
        (store.log.start + store.log.sectors.idxOf sector + 1) data).pin sector data ∧
      last.Consistent := by
  have sizeLe := consistent.size_le
  have placeLe : store.log.sectors.idxOf sector ≤ store.log.sectors.length :=
    idxOf_le_length
  set slot := store.log.start + store.log.sectors.idxOf sector + 1 with isSlot
  have notHome {other : Nat} (isHome : store.log.Home other) : other ≠ slot := by
    unfold Log.Home at isHome
    omega
  have slotFree : slot ∉ store.bio.device.held := fun isHeld => notHome (home slot isHeld) rfl
  obtain ⟨bio₁, reads, device₁⟩ := bread_returns store.bio slot slotFree (room slot)
  obtain ⟨bio₂, writes, device₂⟩ := bwrite_returns bio₁ slot (by simp [device₁]) data
  obtain ⟨bio₃, releases, device₃⟩ := brelse_returns bio₂ slot (by simp [device₂, device₁])
  have device : bio₃.device = store.device.write slot data := by
    rw [device₃, device₂, device₁]
    refine Device.ext rfl rfl ?_ rfl
    simp only [Device.release_held, Device.write_held, Device.hold_held]
    rw [Finset.erase_insert slotFree]
    rfl
  have stillHeld : sector ∈ bio₃.device.held := by
    rw [device]
    exact isHeld
  have pins := Bio.device_setDirty stillHeld data
  rw [device] at pins
  refine ⟨⟨bio₃.setDirty sector data,
    { store.log with sectors := logged store.log.sectors sector }⟩, ?_, rfl, pins, ?_⟩
  · refine Returns.step .get ?_ rfl
    rw [if_neg (by unfold logsize at *; omega), if_neg (by simp [busy])]
    refine Returns.step (lift_returns reads) ?_ rfl
    refine Returns.step (lift_returns writes) ?_ rfl
    refine Returns.step (lift_returns releases) ?_ rfl
    by_cases isLogged : sector ∈ store.log.sectors
    · have place := idxOf_lt_length_iff.mpr isLogged
      rw [if_neg (by omega), logged, if_pos isLogged]
      exact .modify
    · rw [if_pos (idxOf_eq_length isLogged), logged, if_neg isLogged]
      exact Returns.step .modify .modify rfl
  · refine ⟨consistent.size_le, ?_, nodup_logged consistent.nodup sector, ?_, ?_, ?_⟩
    · have := length_logged_le store.log.sectors sector
      show (logged store.log.sectors sector).length < store.log.size
      omega
    · intro other isLogged
      rcases mem_logged.mp isLogged with rfl | isLogged
      · exact home other isHeld
      · exact consistent.home other isLogged
    · show (bio₃.setDirty sector data).device.pinned = (logged store.log.sectors sector).toFinset
      rw [pins, Device.pin_pinned, Device.write_pinned, toFinset_logged, consistent.pinned,
        Finset.erase_eq_self.mpr]
      rw [List.mem_toFinset]
      exact fun isLogged => notHome (consistent.home slot isLogged) rfl
    · intro entry isEntry
      show (bio₃.setDirty sector data).device.view (store.log.start + entry.2 + 1) =
        (bio₃.setDirty sector data).device.view entry.1
      rw [pins, Device.pin_view, Device.write_view]
      have isHome := home sector isHeld
      unfold Log.Home at isHome
      rcases mem_zipIdx_logged consistent.nodup isEntry with rfl | ⟨isOld, different, place⟩
      · rw [update_self, update_of_ne (by omega), update_self]
      have inside := snd_lt_of_mem_zipIdx isOld
      have entryHome := consistent.home entry.1 (fst_mem_of_mem_zipIdx isOld)
      rw [update_of_ne (by omega), update_of_ne (by omega),
        update_of_ne different, update_of_ne (notHome entryHome)]
      exact consistent.slots entry isOld

/-- The writes of `commit_trans` when something is logged. -/
def commitWrites (store : Store) : List Event :=
  .write store.log.start (header (store.device.view store.log.start) store.log.sectors) ::
    (homeWrites store.device.view store.log.start store.log.sectors.zipIdx ++
      [.write store.log.start
        (header (header (store.device.view store.log.start) store.log.sectors) [])])

theorem commitTrans_returns_of_empty (empty : store.log.sectors = []) :
    Returns commitTrans store () { store with log := { store.log with busy := false } } [] := by
  refine Returns.step .get ?_ rfl
  rw [if_neg (by simp [empty])]
  exact .modify

namespace Store.Consistent

variable (consistent : store.Consistent)

include consistent

/-- With nothing held there is room for the header and for a block of the log. -/
theorem room (slot : Nat) : (insert slot store.device.pinned).card ≤ nbuf := by
  have fits := consistent.fits
  have sizeLe := consistent.size_le
  have card := Finset.card_insert_le slot store.device.pinned
  have length := toFinset_card_le store.log.sectors
  rw [← consistent.pinned] at length
  unfold logsize nbuf at *
  omega

theorem room_of_mem (isLogged : sector ∈ store.log.sectors) (slot : Nat) :
    (insert sector (insert slot store.device.pinned)).card ≤ nbuf := by
  rw [Finset.insert_eq_self.mpr]
  · exact consistent.room slot
  · rw [consistent.pinned, Finset.mem_insert, List.mem_toFinset]
    exact .inr isLogged

theorem start_notMem_homeWrites (view : Nat → Block) :
    store.log.start ∉ writtenSectors
      (homeWrites view store.log.start store.log.sectors.zipIdx) := by
  intro isWritten
  have home := consistent.home _ (mem_of_written (prefix_refl _) isWritten)
  exact home.ne_start (Nat.zero_lt_of_lt consistent.fits) rfl

end Store.Consistent

theorem commitTrans_returns (consistent : store.Consistent) (free : store.device.held = ∅)
    (some : store.log.sectors ≠ []) :
    ∃ last, Returns commitTrans store () last (commitWrites store) ∧
      last.log = { store.log with sectors := [], busy := false } ∧
      last.device = store.device.writes (commitWrites store) := by
  obtain ⟨bio₁, commits, device₁⟩ := writeHead_returns store free (consistent.room _)
  set first := header (store.device.view store.log.start) store.log.sectors with isFirst
  obtain ⟨bio₂, installs, device₂⟩ := installTrans_returns
    { store with bio := bio₁ } (by rw [device, device₁]; exact free)
    consistent.home consistent.fits (fun sector isLogged slot => by
      rw [device, device₁]
      refine (Finset.card_le_card ?_).trans (consistent.room_of_mem isLogged slot)
      exact Finset.insert_subset_insert _ (Finset.insert_subset_insert _ (Finset.erase_subset ..)))
  -- writing the header leaves the logged blocks as they are
  have slots : homeWrites (device { store with bio := bio₁ }).view store.log.start
      store.log.sectors.zipIdx =
        homeWrites store.device.view store.log.start store.log.sectors.zipIdx := by
    refine map_congr_left fun entry isEntry => ?_
    rw [device, device₁, Device.write_view, update_of_ne (by omega)]
  rw [slots] at installs device₂
  rw [show device { store with bio := bio₁ } = bio₁.device from rfl, device₁,
    Device.writes_write] at device₂
  set writes := homeWrites store.device.view store.log.start store.log.sectors.zipIdx
  have header₂ : bio₂.device.view store.log.start = first := by
    rw [device₂, Device.writes_view, applyWrites, applyWrites_of_notMem
      (consistent.start_notMem_homeWrites _), update_self]
  obtain ⟨bio₃, erases, device₃⟩ := writeHead_returns
    ⟨bio₂, { store.log with sectors := [] }⟩
    (by rw [device, device₂]; exact free)
    (by
      rw [device, device₂]
      refine (Finset.card_le_card ?_).trans (consistent.room store.log.start)
      exact Finset.insert_subset_insert _ Finset.sdiff_subset)
  rw [show (device ⟨bio₂, { store.log with sectors := [] }⟩).view store.log.start = first
    from header₂] at erases device₃
  refine ⟨⟨bio₃, { store.log with sectors := [], busy := false }⟩, ?_, rfl, ?_⟩
  · refine Returns.step .get ?_ rfl
    rw [if_pos some]
    refine Returns.step commits ?_ rfl
    refine Returns.step installs ?_ rfl
    refine Returns.step .modify ?_ rfl
    refine Returns.step erases ?_ rfl
    exact .modify
  · refine device₃.trans ?_
    rw [show device ⟨bio₂, { store.log with sectors := [] }⟩ = bio₂.device from rfl, device₂,
      commitWrites, ← cons_append, Device.writes_append]
    refine Device.ext rfl rfl rfl ?_
    ext other
    simp only [Device.write_pinned, Device.writes_pinned, writtenSectors, Finset.mem_erase,
      Finset.mem_sdiff, List.mem_toFinset, mem_cons, not_mem_nil, writes]
    tauto

end XEditor.Fs
