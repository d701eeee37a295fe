import XEditor.Fs.Log

/-!
# Crashes and recovery

A crash stops the machine after some of the sector writes of a run; what remains
is the disk.  Recovery is `initlog` on that disk, with an empty buffer cache.

The log makes transactions atomic: after a crash and recovery the blocks outside
the log hold what they held before the interrupted transaction or what they hold
after it.  Recovery may itself be interrupted and repeated.
-/

namespace XEditor.Fs

open List Function Program Returns Block

/-! ## Transactions, crashes and recovery -/

/-- A block that a transaction reads, changes and logs. -/
def logBlock (block : Nat × Block) : Code Store Unit := do
  let _ ← bread block.1
  logWrite block.1 block.2
  brelse block.1

/-- A transaction that logs a list of blocks. -/
def transaction (blocks : List (Nat × Block)) : Code Store Unit := do
  beginTrans
  each logBlock blocks
  commitTrans

/-- A disk after the blocks of a transaction. -/
def applyBlocks (disk : Nat → Block) : List (Nat × Block) → Nat → Block
  | [] => disk
  | block :: blocks => applyBlocks (Function.update disk block.1 block.2) blocks

/-- What a log may look like: a header and at most `LOGSIZE - 1` blocks, away from the
super block. -/
structure Log.LaidOut (log : Log) : Prop where
  size_pos : 0 < log.size
  size_le : log.size ≤ logsize
  home : log.Home 1
  no_wrap : log.start + log.size ≤ 2 ^ 32

/-- A super block says where the log is. -/
structure Log.DescribedBy (log : Log) (superblock : Block) : Prop where
  start_eq : ((Superblock.ofBlock superblock).size - (Superblock.ofBlock superblock).nlog).toNat =
    log.start
  size_eq : (Superblock.ofBlock superblock).nlog.toNat = log.size

/-- A store between transactions. -/
structure Store.Ready (store : Store) : Prop where
  held : store.device.held = ∅
  pinned : store.device.pinned = ∅
  sectors : store.log.sectors = []
  busy : store.log.busy = false
  layout : store.log.LaidOut
  described : store.log.DescribedBy (store.device.disk 1)
  erased : headerSectors (store.device.disk store.log.start) = []

/-- A block that may be logged: it has a home outside the log, and a super block still
says where the log is. -/
structure Log.MayLog (log : Log) (block : Nat × Block) : Prop where
  home : log.Home block.1
  uint : block.1 < 2 ^ 32
  superblock : block.1 = 1 → log.DescribedBy block.2

/-- A transaction within the allowed size: before each `log_write` the log has room
for one more sector. -/
structure Log.Allows (log : Log) (blocks : List (Nat × Block)) : Prop where
  mayLog : ∀ block ∈ blocks, log.MayLog block
  fits : ∀ before block later, blocks = before ++ block :: later →
    (before.map Prod.fst).toFinset.card + 1 < log.size

/-- The committed transactions return, and so does the next one.  A crash after any of
its sector writes, followed by recovery, leaves none or all of its blocks outside
the log, and all blocks of the committed ones.  Recovery may be repeated, also after
it has itself been interrupted: it always gives the same disk. -/
def Store.SurvivesCrash (store : Store) (committed : List (List (Nat × Block)))
    (interrupted : List (Nat × Block)) : Prop :=
  ∃ middle earlier last later,
    Returns (each transaction committed) store () middle earlier ∧
    Returns (transaction interrupted) middle () last later ∧
    ∀ done, done <+: later → ∀ crashed,
      crashed = applyWrites store.device.disk (earlier ++ done) →
        ∃ recovered writes, Returns initlog (.boot crashed) () recovered writes ∧
          recovered.device.disk = applyWrites crashed writes ∧
          ((∀ sector, store.log.Home sector → recovered.device.disk sector =
              applyBlocks store.device.disk committed.flatten sector) ∨
            ∀ sector, store.log.Home sector → recovered.device.disk sector =
              applyBlocks store.device.disk (committed ++ [interrupted]).flatten sector) ∧
          ∀ some, some <+: writes →
            ∃ again writes', Returns initlog (.boot (applyWrites crashed some)) () again writes' ∧
              again.device.disk = recovered.device.disk

/-! ## Headers -/

theorem word_header (block : Block) (sectors : List Nat) {index : Nat} (inside : index < 128) :
    (header block sectors).word index =
      if index = 0 then BitVec.ofNat 32 sectors.length
      else ((sectors.map (BitVec.ofNat 32))[index - 1]?).getD (block.word index) := by
  rw [header, word_setWords _ _ inside, word_setWord _ inside]
  by_cases first : index = 0
  · rw [if_neg (by omega), if_pos first, if_pos first]
  · rw [if_pos (by omega), if_neg first, if_neg first]

theorem headerSectors_header (block : Block) {sectors : List Nat} (few : sectors.length ≤ 127)
    (uint : ∀ sector ∈ sectors, sector < 2 ^ 32) :
    headerSectors (header block sectors) = sectors := by
  have count : ((header block sectors).word 0).toInt.toNat = sectors.length := by
    rw [word_header _ _ (by omega), if_pos rfl, BitVec.toInt_ofNat', Int.bmod_def]
    omega
  unfold headerSectors
  rw [count]
  refine ext_getElem (by simp) fun index inside _ => ?_
  rw [length_map, length_range] at inside
  rw [getElem_map, getElem_range, word_header _ _ (by omega), if_neg (by omega),
    Nat.add_sub_cancel, getElem?_map, getElem?_eq_getElem inside]
  exact Nat.mod_eq_of_lt (uint _ (getElem_mem inside))

theorem headerSectors_header_nil (block : Block) : headerSectors (header block []) = [] :=
  headerSectors_header block (Nat.zero_le _) fun _ isSector => (not_mem_nil isSector).elim

theorem header_header_nil (block : Block) : header (header block []) [] = header block [] := by
  apply ext_cell 32 (by decide)
  intro index inside
  show (header (header block []) []).word index = (header block []).word index
  rw [word_header _ _ (by omega), word_header _ _ (by omega)]
  by_cases first : index = 0
  · rw [if_pos first, if_pos first]
  · rw [if_neg first]
    rfl

/-! ## A transaction -/

variable {sector : Nat} {store : Store} {disk : Nat → Block} {log : Log}
  {blocks : List (Nat × Block)}

theorem applyBlocks_congr {disk disk' : Nat → Block}
    (same : disk sector = disk' sector) :
    applyBlocks disk blocks sector = applyBlocks disk' blocks sector := by
  induction blocks generalizing disk disk' with
  | nil => exact same
  | cons block blocks ih =>
    refine ih ?_
    by_cases here : sector = block.1
    · rw [here, update_self, update_self]
    · rw [update_of_ne here, update_of_ne here, same]

/-- A write to a block of the log behind the header. -/
def Log.IsSlotWrite (log : Log) (event : Event) : Prop :=
  ∃ index data, event = .write (log.start + index + 1) data ∧ index + 1 < log.size

theorem logBlock_returns {block : Nat × Block} (consistent : store.Consistent)
    (free : store.device.held = ∅) (home : store.log.Home block.1) (busy : store.log.busy = true)
    (small : store.log.sectors.length + 1 < store.log.size) :
    ∃ last, Returns (logBlock block) store () last
        [.write (store.log.start + store.log.sectors.idxOf block.1 + 1) block.2] ∧
      last.log = { store.log with sectors := logged store.log.sectors block.1 } ∧
      last.device = (store.device.write
        (store.log.start + store.log.sectors.idxOf block.1 + 1) block.2).pin block.1 block.2 ∧
      last.Consistent := by
  have sizeLe := consistent.size_le
  have pinned := toFinset_card_le store.log.sectors
  rw [← consistent.pinned] at pinned
  have room (slot : Nat) : (insert slot (insert block.1 store.device.pinned)).card ≤ nbuf := by
    have inner := Finset.card_insert_le block.1 store.device.pinned
    have outer := Finset.card_insert_le slot (insert block.1 store.device.pinned)
    unfold logsize nbuf at *
    omega
  have held : store.bio.device.held = ∅ := free
  obtain ⟨bio₁, reads, device₁⟩ := bread_returns store.bio block.1 (by simp [held])
    (by
      rw [held]
      exact (Finset.card_le_card (Finset.subset_insert _ _)).trans (room 0))
  have holding : (Store.device { store with bio := bio₁ }) = store.device.hold block.1 := device₁
  have consistent₁ : Store.Consistent { store with bio := bio₁ } :=
    ⟨consistent.size_le, consistent.fits, consistent.nodup, consistent.home,
      by rw [holding]; exact consistent.pinned, by rw [holding]; exact consistent.slots⟩
  obtain ⟨store₂, writes, log₂, device₂, consistent₂⟩ := logWrite_returns consistent₁
    block.1 (by simp [holding])
    (by
      intro other isHeld
      have isBlock : other = block.1 := by simpa [holding, free] using isHeld
      rw [isBlock]
      exact home)
    busy small
    (by
      rw [holding, Device.hold_held, free]
      simpa [Finset.insert_union] using room) block.2
  rw [holding] at device₂
  obtain ⟨bio₃, releases, device₃⟩ := brelse_returns store₂.bio block.1
    (by rw [show store₂.bio.device = _ from device₂]; simp)
  have device : bio₃.device = (store.device.write
      (store.log.start + store.log.sectors.idxOf block.1 + 1) block.2).pin block.1 block.2 := by
    rw [device₃, show store₂.bio.device = _ from device₂]
    refine Device.ext rfl rfl ?_ rfl
    simp [free]
  refine ⟨{ store₂ with bio := bio₃ }, ?_, log₂, device, ?_⟩
  · refine step (lift_returns reads) ?_ rfl
    exact step writes (lift_returns releases) rfl
  · obtain ⟨size, fits, nodup, home, pinned, slots⟩ := consistent₂
    have same : Store.device { store₂ with bio := bio₃ } = store₂.device.release block.1 := device₃
    exact ⟨size, fits, nodup, home, by rw [same]; exact pinned, by rw [same]; exact slots⟩

/-- The blocks of a transaction go to the log, and only there. -/
theorem each_logBlock_returns (store : Store) (blocks : List (Nat × Block))
    (consistent : store.Consistent) (free : store.device.held = ∅)
    (home : ∀ block ∈ blocks, store.log.Home block.1) (busy : store.log.busy = true)
    (fits : ∀ before block later, blocks = before ++ block :: later →
      (store.log.sectors.toFinset ∪ (before.map Prod.fst).toFinset).card + 1 < store.log.size) :
    ∃ last events, Returns (each logBlock blocks) store () last events ∧ last.Consistent ∧
      last.device.held = ∅ ∧
      last.log = { store.log with sectors := last.log.sectors } ∧
      last.log.sectors.toFinset = store.log.sectors.toFinset ∪ (blocks.map Prod.fst).toFinset ∧
      (∀ event ∈ events, store.log.IsSlotWrite event) ∧
      last.device.disk = applyWrites store.device.disk events ∧
      ∀ sector, store.log.Home sector →
        last.device.view sector = applyBlocks store.device.view blocks sector := by
  induction blocks generalizing store with
  | nil =>
    exact ⟨store, [], .pure, consistent, free, rfl, by simp,
      fun _ isEvent => (not_mem_nil isEvent).elim, rfl, fun _ _ => rfl⟩
  | cons block blocks ih =>
    have blockHome := home block mem_cons_self
    have small : store.log.sectors.length + 1 < store.log.size := by
      have := fits [] block blocks rfl
      rwa [map_nil, toFinset_nil, Finset.union_empty,
        toFinset_card_of_nodup consistent.nodup] at this
    obtain ⟨middle, logs, log, device, consistent'⟩ :=
      logBlock_returns consistent free blockHome busy small
    have place : store.log.sectors.idxOf block.1 ≤ store.log.sectors.length :=
      idxOf_le_length
    have sectors : middle.log.sectors = logged store.log.sectors block.1 := by rw [log]
    obtain ⟨last, events, rest, consistent'', free', log', sectors', slots, disk, view⟩ :=
      ih middle consistent' (by rw [device]; exact free)
        (fun other isOther => by
          rw [log]
          exact home other (mem_cons_of_mem _ isOther))
        (by rw [log]; exact busy)
        (by
          intro before other later split
          have := fits (block :: before) other later (by rw [split]; rfl)
          rw [sectors, toFinset_logged, log]
          rwa [map_cons, toFinset_cons, Finset.union_insert,
            ← Finset.insert_union] at this)
    have isSlot : store.log.IsSlotWrite
        (.write (store.log.start + store.log.sectors.idxOf block.1 + 1) block.2) :=
      ⟨_, _, rfl, by omega⟩
    refine ⟨last, _, logs.bind rest, consistent'', free', by rw [log', log], ?_, ?_, ?_, ?_⟩
    · rw [sectors', sectors, toFinset_logged, map_cons, toFinset_cons,
        Finset.union_insert, Finset.insert_union]
    · intro event isEvent
      rcases mem_append.mp isEvent with isFirst | isLater
      · rw [mem_singleton.mp isFirst]
        exact isSlot
      · obtain ⟨index, data, eq, inside⟩ := slots event isLater
        rw [log] at eq inside
        exact ⟨index, data, eq, inside⟩
    · rw [disk, device]
      rfl
    intro sector isHome
    rw [view sector (by rw [log]; exact isHome), device, Device.pin_view, Device.write_view]
    refine applyBlocks_congr ?_
    by_cases here : sector = block.1
    · rw [here, update_self, update_self]
    · unfold Log.Home at isHome
      rw [update_of_ne here, update_of_ne here, update_of_ne (by omega)]

theorem applyWrites_cases (disk : Nat → Block) (events : List Event) (sector : Nat) :
    applyWrites disk events sector = disk sector ∨
      ∃ data, .write sector data ∈ events ∧ applyWrites disk events sector = data := by
  induction events generalizing disk with
  | nil => exact .inl rfl
  | cons event events ih =>
    cases event with
    | alloc before block =>
      refine (ih disk).imp_right ?_
      rintro ⟨data, isWrite, eq⟩
      exact ⟨data, mem_cons_of_mem _ isWrite, eq⟩
    | write other data =>
      rcases ih (update disk other data) with eq | ⟨data', isWrite, eq⟩
      · by_cases here : sector = other
        · subst here
          rw [update_self] at eq
          exact .inr ⟨data, mem_cons_self, eq⟩
        · rw [update_of_ne here] at eq
          exact .inl eq
      · exact .inr ⟨data', mem_cons_of_mem _ isWrite, eq⟩

theorem applyBlocks_cases (disk : Nat → Block) (blocks : List (Nat × Block)) (sector : Nat) :
    applyBlocks disk blocks sector = disk sector ∧ sector ∉ blocks.map Prod.fst ∨
      (sector, applyBlocks disk blocks sector) ∈ blocks := by
  induction blocks generalizing disk with
  | nil => exact .inl ⟨rfl, not_mem_nil⟩
  | cons block blocks ih =>
    rcases ih (update disk block.1 block.2) with ⟨eq, absent⟩ | isBlock
    · by_cases here : sector = block.1
      · subst here
        rw [update_self] at eq
        right
        rw [applyBlocks, eq]
        exact mem_cons_self
      · rw [update_of_ne here] at eq
        refine .inl ⟨eq, ?_⟩
        rw [map_cons, mem_cons, not_or]
        exact ⟨here, absent⟩
    · exact .inr (mem_cons_of_mem _ isBlock)

/-- Writes that leave a sector as it is. -/
theorem applyWrites_eq_self {events : List Event}
    (same : ∀ data, .write sector data ∈ events → data = disk sector) :
    applyWrites disk events sector = disk sector := by
  rcases applyWrites_cases disk events sector with eq | ⟨data, isWrite, eq⟩
  · exact eq
  · rw [eq, same data isWrite]

/-- The home writes of a log bring home what a read gives. -/
theorem Store.Consistent.homeWrites_eq (consistent : store.Consistent) {data : Block}
    (isWrite : .write sector data ∈
      homeWrites store.device.view store.log.start store.log.sectors.zipIdx) :
    sector ∈ store.log.sectors ∧ data = store.device.view sector := by
  obtain ⟨entry, isEntry, eq⟩ := mem_map.mp isWrite
  rw [Event.write.injEq] at eq
  rw [← eq.1, ← eq.2]
  exact ⟨fst_mem_of_mem_zipIdx isEntry, consistent.slots entry isEntry⟩

/-- A home location after some or all of the home writes. -/
theorem Store.Consistent.applyWrites_homeWrites (consistent : store.Consistent)
    (same : sector ∉ store.log.sectors → disk sector = store.device.view sector) :
    applyWrites disk (homeWrites store.device.view store.log.start store.log.sectors.zipIdx)
      sector = store.device.view sector := by
  by_cases isLogged : sector ∈ store.log.sectors
  · have isWritten : sector ∈ writtenSectors
        (homeWrites store.device.view store.log.start store.log.sectors.zipIdx) := by
      rwa [writtenSectors_homeWrites, zipIdx_map_fst]
    rw [applyWrites_congr (.inl isWritten)]
    exact applyWrites_eq_self fun data isWrite => (consistent.homeWrites_eq isWrite).2
  · rw [applyWrites_of_notMem, same isLogged]
    rwa [writtenSectors_homeWrites, zipIdx_map_fst]

/-- A store in a transaction whose blocks are in the log and not yet committed. -/
structure Store.Prepared (store middle : Store) (blocks : List (Nat × Block))
    (slots : List Event) : Prop where
  consistent : middle.Consistent
  held : middle.device.held = ∅
  log : middle.log = { store.log with busy := true, sectors := middle.log.sectors }
  sectors : middle.log.sectors.toFinset = (blocks.map Prod.fst).toFinset
  isSlot : ∀ event ∈ slots, store.log.IsSlotWrite event
  disk : middle.device.disk = applyWrites store.device.disk slots
  view : ∀ sector, store.log.Home sector →
    middle.device.view sector = applyBlocks store.device.disk blocks sector

theorem Store.Ready.prepared (ready : store.Ready)
    (allows : store.log.Allows blocks) :
    ∃ middle slots, Returns (each logBlock blocks)
        { store with log := { store.log with busy := true } } () middle slots ∧
      store.Prepared middle blocks slots := by
  have view : store.device.view = store.device.disk := funext fun sector =>
    Bio.view_of_not_pinned (by
      rw [show store.bio.device.pinned = ∅ from ready.pinned]
      exact Finset.notMem_empty _)
  have consistent : Store.Consistent { store with log := { store.log with busy := true } } := by
    refine ⟨ready.layout.size_le, ?_, ?_, ?_, ?_, ?_⟩
    all_goals rw [ready.sectors]
    · exact ready.layout.size_pos
    · exact nodup_nil
    · exact fun _ isSector => (not_mem_nil isSector).elim
    · exact ready.pinned
    · exact fun _ isEntry => (not_mem_nil isEntry).elim
  obtain ⟨middle, slots, logs, consistent', free, log, sectors, isSlot, disk, homes⟩ :=
    each_logBlock_returns { store with log := { store.log with busy := true } } blocks consistent
      ready.held (fun block isBlock => (allows.mayLog block isBlock).home) rfl
      (fun before block later split => by
        rw [ready.sectors]
        exact allows.fits before block later split)
  rw [ready.sectors] at sectors
  refine ⟨middle, slots, logs, consistent', free, log, sectors, isSlot, disk, fun sector home => ?_⟩
  rw [homes sector home, ← view]
  rfl

/-- The log area is all that the slot writes touch, and the header is not a slot. -/
theorem applyWrites_slots {slots : List Event} (isSlot : ∀ event ∈ slots, log.IsSlotWrite event)
    (disk : Nat → Block) (apart : log.Home sector ∨ sector = log.start) :
    applyWrites disk slots sector = disk sector := by
  refine applyWrites_of_notMem fun isWritten => ?_
  induction slots with
  | nil => exact not_mem_nil isWritten
  | cons event slots ih =>
    obtain ⟨index, data, rfl, inside⟩ := isSlot event mem_cons_self
    rcases mem_cons.mp isWritten with here | later
    · unfold Log.Home at apart
      omega
    · exact ih (fun event isEvent => isSlot event (mem_cons_of_mem _ isEvent)) later

/-- A super block after a transaction still says where the log is. -/
theorem Log.Allows.describedBy (allows : log.Allows blocks)
    (described : log.DescribedBy (disk 1)) :
    log.DescribedBy (applyBlocks disk blocks 1) := by
  rcases applyBlocks_cases disk blocks 1 with ⟨eq, -⟩ | isBlock
  · rw [eq]
    exact described
  · exact (allows.mayLog _ isBlock).superblock rfl

namespace Store.Prepared

variable {middle : Store} {slots : List Event}
  (prepared : store.Prepared middle blocks slots)

include prepared

theorem start_eq : middle.log.start = store.log.start := by rw [prepared.log]

theorem size_eq : middle.log.size = store.log.size := by rw [prepared.log]

theorem home_iff : middle.log.Home sector ↔ store.log.Home sector := by
  rw [Log.Home, prepared.start_eq, prepared.size_eq, Log.Home]

theorem ne_start (home : store.log.Home sector) : sector ≠ middle.log.start :=
  (prepared.home_iff.mpr home).ne_start (Nat.zero_lt_of_lt prepared.consistent.fits)

/-- A sector that is not logged is read from the disk. -/
theorem disk_eq_view (absent : sector ∉ middle.log.sectors) :
    middle.device.disk sector = middle.device.view sector :=
  (Bio.view_of_not_pinned (by
    rw [show middle.bio.device.pinned = _ from prepared.consistent.pinned, mem_toFinset]
    exact absent)).symm

theorem commit (ready : store.Ready) (allows : store.log.Allows blocks) :
    ∃ last events, Returns commitTrans middle () last events ∧ last.Ready ∧
      last.log = store.log ∧ last.device.disk = applyWrites middle.device.disk events ∧
      (∀ sector, store.log.Home sector →
        last.device.disk sector = applyBlocks store.device.disk blocks sector) ∧
      (events = [] ∧ middle.log.sectors = [] ∨
        events = commitWrites middle ∧ middle.log.sectors ≠ []) := by
  have log : { middle.log with sectors := [], busy := false } = store.log := by
    rw [prepared.log, ← ready.sectors, ← ready.busy]
  have described := allows.describedBy ready.described
  by_cases empty : middle.log.sectors = []
  · have homes (sector : Nat) (home : store.log.Home sector) :
        middle.device.disk sector = applyBlocks store.device.disk blocks sector := by
      rw [prepared.disk_eq_view (by rw [empty]; exact not_mem_nil), prepared.view sector home]
    have sameLog : { middle.log with busy := false } = store.log := by
      rw [← log, ← empty]
    refine ⟨_, [], commitTrans_returns_of_empty empty, ?_, sameLog, rfl, homes, .inl ⟨rfl, empty⟩⟩
    refine ⟨prepared.held, ?_, empty, rfl, ?_, ?_, ?_⟩
    · show middle.device.pinned = ∅
      rw [prepared.consistent.pinned, empty, toFinset_nil]
    · exact sameLog ▸ ready.layout
    · show Log.DescribedBy _ (middle.device.disk 1)
      rw [homes 1 ready.layout.home]
      exact sameLog ▸ described
    · show headerSectors (middle.device.disk middle.log.start) = []
      rw [prepared.disk, prepared.start_eq, applyWrites_slots prepared.isSlot _ (.inr rfl)]
      exact ready.erased
  · obtain ⟨last, commits, lastLog, device⟩ :=
      commitTrans_returns prepared.consistent prepared.held empty
    rw [log] at lastLog
    have homes (sector : Nat) (home : store.log.Home sector) :
        last.device.disk sector = applyBlocks store.device.disk blocks sector := by
      have notStart := prepared.ne_start home
      rw [← prepared.view sector home, device, Device.writes_disk, commitWrites, applyWrites,
        applyWrites_append, applyWrites, applyWrites, update_of_ne notStart]
      refine prepared.consistent.applyWrites_homeWrites fun absent => ?_
      rw [update_of_ne notStart]
      exact prepared.disk_eq_view absent
    refine ⟨last, commitWrites middle, commits, ?_, lastLog, by rw [device]; rfl, homes,
      .inr ⟨rfl, empty⟩⟩
    refine ⟨by rw [device]; exact prepared.held, ?_, ?_, ?_, lastLog ▸ ready.layout, ?_, ?_⟩
    · rw [device, Device.writes_pinned, prepared.consistent.pinned,
        Finset.sdiff_eq_empty_iff_subset, commitWrites]
      intro sector isLogged
      rw [writtenSectors, writtenSectors_append, writtenSectors_homeWrites]
      simp [isLogged]
    · rw [lastLog]
      exact ready.sectors
    · rw [lastLog]
      exact ready.busy
    · rw [homes 1 ready.layout.home, lastLog]
      exact described
    · rw [device, Device.writes_disk, lastLog, ← prepared.start_eq, commitWrites, applyWrites,
        applyWrites_append, applyWrites, applyWrites, update_self]
      exact headerSectors_header_nil _

end Store.Prepared

/-! ## Recovery -/

/-- The writes of recovery. -/
def recoveryWrites (start : Nat) (disk : Nat → Block) : List Event :=
  homeWrites disk start (headerSectors (disk start)).zipIdx ++
    [.write start (header (disk start) [])]

theorem readsb_returns (bio : Bio) (free : bio.device.held = ∅)
    (room : (insert 1 bio.device.pinned).card ≤ nbuf) :
    ∃ last, Returns readsb bio (.ofBlock (bio.device.view 1)) last [] ∧
      last.device = bio.device := by
  obtain ⟨bio₁, reads, device₁⟩ := bread_returns bio 1 (by simp [free])
    (by rwa [free, Finset.empty_union])
  obtain ⟨last, releases, device₂⟩ := brelse_returns bio₁ 1 (by simp [device₁])
  refine ⟨last, step reads (step releases .pure rfl) rfl, ?_⟩
  rw [device₂, device₁]
  refine Device.ext rfl rfl ?_ rfl
  simp [free]

theorem readHead_returns (store : Store) (free : store.device.held = ∅)
    (room : (insert store.log.start store.device.pinned).card ≤ nbuf) :
    ∃ last, Returns readHead store ()
        ⟨last, { store.log with
          sectors := headerSectors (store.device.view store.log.start) }⟩ [] ∧
      last.device = store.device := by
  have held : store.bio.device.held = ∅ := free
  obtain ⟨bio₁, reads, device₁⟩ := bread_returns store.bio store.log.start (by simp [held])
    (by rwa [held, Finset.empty_union])
  obtain ⟨last, releases, device₂⟩ := brelse_returns bio₁ store.log.start (by simp [device₁])
  refine ⟨last, step .get ?_ rfl, ?_⟩
  · refine step (lift_returns reads) ?_ rfl
    exact step .modify (lift_returns releases) rfl
  rw [device₂, device₁]
  refine Device.ext rfl rfl ?_ rfl
  rw [Device.release_held, Device.hold_held, held, free]
  simp

/-- A disk that can be recovered: its log is where the super block says, and holds
blocks with a home outside it. -/
structure Log.Recoverable (log : Log) (disk : Nat → Block) : Prop where
  described : log.DescribedBy (disk 1)
  home : ∀ sector ∈ headerSectors (disk log.start), log.Home sector
  fits : (headerSectors (disk log.start)).length < log.size
  superblock : ∀ entry ∈ (headerSectors (disk log.start)).zipIdx, entry.1 = 1 →
    log.DescribedBy (disk (log.start + entry.2 + 1))

/-- A log with nothing in it. -/
theorem Log.Recoverable.of_nil (layout : log.LaidOut) (described : log.DescribedBy (disk 1))
    (none : headerSectors (disk log.start) = []) :
    log.Recoverable disk where
  described := described
  home := by
    rw [none]
    exact fun _ isSector => (not_mem_nil isSector).elim
  fits := by
    rw [none]
    exact layout.size_pos
  superblock := by
    rw [none]
    exact fun _ isEntry => (not_mem_nil isEntry).elim

theorem initlog_returns (recoverable : log.Recoverable disk) :
    ∃ last, Returns initlog (.boot disk) () last (recoveryWrites log.start disk) ∧
      last.device.disk = applyWrites disk (recoveryWrites log.start disk) := by
  obtain ⟨described, home, fits, -⟩ := recoverable
  have boot := Bio.device_boot disk
  have small (sector : Nat) : (insert sector (∅ : Finset Nat)).card ≤ nbuf := by
    rw [insert_empty_eq, Finset.card_singleton]
    decide
  obtain ⟨bio₁, reads, device₁⟩ := readsb_returns (.boot disk) (by rw [boot])
    (by rw [boot]; exact small 1)
  rw [boot] at reads device₁
  obtain ⟨bio₂, heads, device₂⟩ := readHead_returns
    ⟨bio₁, { start := log.start, size := log.size, busy := false, sectors := [] }⟩
    (by rw [Store.device, device₁]) (by rw [Store.device, device₁]; exact small _)
  rw [Store.device, device₁] at heads device₂
  set sectors := headerSectors (disk log.start)
  obtain ⟨bio₃, installs, device₃⟩ := installTrans_returns
    ⟨bio₂, { start := log.start, size := log.size, busy := false, sectors }⟩
    (by rw [Store.device, device₂]) home fits (fun sector _ slot => by
      rw [Store.device, device₂]
      refine (Finset.card_insert_le _ _).trans ?_
      rw [insert_empty_eq, Finset.card_singleton]
      decide)
  rw [Store.device, device₂] at installs device₃
  have notStart : log.start ∉ writtenSectors (homeWrites disk log.start sectors.zipIdx) := by
    intro isWritten
    have isHome := home _ (mem_of_written (prefix_refl _) isWritten)
    exact isHome.ne_start (Nat.zero_lt_of_lt fits) rfl
  obtain ⟨bio₄, erases, device₄⟩ := writeHead_returns
    ⟨bio₃, { start := log.start, size := log.size, busy := false, sectors := [] }⟩
    (by rw [Store.device, device₃]; rfl)
    (by
      rw [Store.device, device₃, Device.writes_pinned, Finset.empty_sdiff]
      exact small _)
  rw [Store.device, device₃, Device.writes_view] at erases device₄
  rw [applyWrites_of_notMem notStart] at erases device₄
  refine ⟨⟨bio₄, { start := log.start, size := log.size, busy := false, sectors := [] }⟩, ?_, ?_⟩
  · refine step (lift_returns reads) ?_ rfl
    refine step .modify ?_ rfl
    rw [described.start_eq, described.size_eq]
    refine step heads ?_ rfl
    refine step installs ?_ rfl
    exact step .modify erases rfl
  · rw [Store.device]
    rw [device₄, recoveryWrites, applyWrites_append]
    rfl

/-- The log area is not a home location. -/
theorem Log.Recoverable.applyWrites_area (recoverable : log.Recoverable disk) {some : List Event}
    (isPrefix : some <+: homeWrites disk log.start (headerSectors (disk log.start)).zipIdx)
    (inside : log.start ≤ sector) (below : sector < log.start + log.size) :
    applyWrites disk some sector = disk sector := by
  refine applyWrites_of_notMem fun isWritten => ?_
  have home := recoverable.home _ (mem_of_written isPrefix isWritten)
  unfold Log.Home at home
  omega

/-- Recovery that was interrupted has the same writes to do as before, or none are
left. -/
theorem Log.Recoverable.interrupted (layout : log.LaidOut) (recoverable : log.Recoverable disk)
    {some : List Event} (isPrefix : some <+: recoveryWrites log.start disk) :
    log.Recoverable (applyWrites disk some) ∧
      applyWrites (applyWrites disk some) (recoveryWrites log.start (applyWrites disk some)) =
        applyWrites disk (recoveryWrites log.start disk) := by
  have described : log.DescribedBy (applyWrites disk some 1) := by
    rcases applyWrites_cases disk some 1 with eq | ⟨data, isWrite, eq⟩
    · rw [eq]
      exact recoverable.described
    rw [eq]
    have isWrite := isPrefix.subset isWrite
    rcases mem_append.mp isWrite with isHome | isHeader
    · obtain ⟨entry, isEntry, same⟩ := mem_map.mp isHome
      rw [Event.write.injEq] at same
      rw [← same.2]
      exact recoverable.superblock entry isEntry same.1
    · rw [mem_singleton, Event.write.injEq] at isHeader
      exact (layout.home.ne_start layout.size_pos isHeader.1).elim
  have fits := recoverable.fits
  rcases prefix_concat_iff.mp isPrefix with all | inHome
  · -- all writes are done, and the header is erased
    have erased : applyWrites disk some log.start = header (disk log.start) [] := by
      rw [all, applyWrites_append]
      exact update_self ..
    have none : headerSectors (applyWrites disk some log.start) = [] := by
      rw [erased, headerSectors_header_nil]
    refine ⟨.of_nil layout described none, ?_⟩
    rw [← show some = recoveryWrites log.start disk from all, recoveryWrites, erased,
      headerSectors_header_nil, header_header_nil, ← erased]
    exact update_eq_self ..
  · have area {sector : Nat} (inside : log.start ≤ sector) (below : sector < log.start + log.size) :
        applyWrites disk some sector = disk sector :=
      recoverable.applyWrites_area inHome inside below
    have start : applyWrites disk some log.start = disk log.start := area (le_refl _) (by omega)
    have same : recoveryWrites log.start (applyWrites disk some) =
        recoveryWrites log.start disk := by
      rw [recoveryWrites, start]
      congr 1
      refine map_congr_left fun entry isEntry => ?_
      have := snd_lt_of_mem_zipIdx isEntry
      rw [area (by omega) (by omega)]
    refine ⟨⟨described, ?_, ?_, ?_⟩, ?_⟩
    · rw [start]
      exact recoverable.home
    · rw [start]
      exact recoverable.fits
    · rw [start]
      intro entry isEntry isOne
      have := snd_lt_of_mem_zipIdx isEntry
      rw [area (by omega) (by omega)]
      exact recoverable.superblock entry isEntry isOne
    · rw [same]
      funext sector
      refine applyWrites_congr ?_
      by_cases isWritten : sector ∈ writtenSectors some
      · left
        obtain ⟨rest, split⟩ := isPrefix
        rw [← split, writtenSectors_append]
        exact mem_append_left _ isWritten
      · exact .inr (applyWrites_of_notMem isWritten)

/-! ## Crashes -/

/-- A home location after recovery from a log with nothing in it. -/
theorem applyWrites_recoveryWrites_of_nil (pos : 0 < log.size)
    (none : headerSectors (disk log.start) = []) (home : log.Home sector) :
    applyWrites disk (recoveryWrites log.start disk) sector = disk sector := by
  rw [recoveryWrites, none]
  exact update_of_ne (home.ne_start pos) _ _

/-- Before the header is written, a crash loses the transaction. -/
theorem Store.Prepared.crash_before {middle : Store} {slots done : List Event}
    (prepared : store.Prepared middle blocks slots)
    (ready : store.Ready) (isPrefix : done <+: slots) :
    store.log.Recoverable (applyWrites store.device.disk done) ∧
      ∀ sector, store.log.Home sector →
        applyWrites (applyWrites store.device.disk done)
          (recoveryWrites store.log.start (applyWrites store.device.disk done)) sector =
            store.device.disk sector := by
  have isSlot : ∀ event ∈ done, store.log.IsSlotWrite event := fun event isEvent =>
    prepared.isSlot event (isPrefix.subset isEvent)
  have none : headerSectors (applyWrites store.device.disk done store.log.start) = [] := by
    rw [applyWrites_slots isSlot _ (.inr rfl)]
    exact ready.erased
  refine ⟨.of_nil ready.layout ?_ none, fun sector home => ?_⟩
  · rw [applyWrites_slots isSlot _ (.inl ready.layout.home)]
    exact ready.described
  · rw [applyWrites_recoveryWrites_of_nil ready.layout.size_pos none home,
      applyWrites_slots isSlot _ (.inl home)]

/-- Once the header is written, recovery finishes the transaction. -/
theorem Store.Prepared.crash_installing {middle : Store} {slots done : List Event}
    (prepared : store.Prepared middle blocks slots)
    (ready : store.Ready) (allows : store.log.Allows blocks)
    (isPrefix : done <+:
      homeWrites middle.device.view middle.log.start middle.log.sectors.zipIdx)
    {crashed : Nat → Block}
    (isCrashed : crashed = applyWrites (update middle.device.disk middle.log.start
      (header (middle.device.view middle.log.start) middle.log.sectors)) done) :
    store.log.Recoverable crashed ∧
      ∀ sector, store.log.Home sector →
        applyWrites crashed (recoveryWrites store.log.start crashed) sector =
          applyBlocks store.device.disk blocks sector := by
  obtain ⟨consistent, -, -, sectors, -, -, view⟩ := id prepared
  have fits := consistent.fits
  have sizeLe := consistent.size_le
  have uint : ∀ sector ∈ middle.log.sectors, sector < 2 ^ 32 := by
    intro sector isLogged
    rw [← mem_toFinset, sectors, mem_toFinset] at isLogged
    obtain ⟨block, isBlock, rfl⟩ := mem_map.mp isLogged
    exact (allows.mayLog block isBlock).uint
  have described : store.log.DescribedBy (middle.device.view 1) := by
    rw [view 1 ready.layout.home]
    exact allows.describedBy ready.described
  -- what is not logged has not been written
  have unwritten {sector : Nat} (absent : sector ∉ middle.log.sectors)
      (notStart : sector ≠ middle.log.start) : crashed sector = middle.device.view sector := by
    rw [isCrashed, applyWrites_of_notMem, update_of_ne notStart, prepared.disk_eq_view absent]
    exact fun isWritten => absent (mem_of_written isPrefix isWritten)
  have notLogged {sector : Nat} (inside : middle.log.start ≤ sector)
      (below : sector < middle.log.start + middle.log.size) : sector ∉ middle.log.sectors := by
    intro isLogged
    have home := consistent.home sector isLogged
    unfold Log.Home at home
    omega
  have head : crashed middle.log.start =
      header (middle.device.view middle.log.start) middle.log.sectors := by
    rw [isCrashed, applyWrites_of_notMem, update_self]
    intro isWritten
    exact notLogged (le_refl _) (by omega) (mem_of_written isPrefix isWritten)
  have recorded : headerSectors (crashed middle.log.start) = middle.log.sectors := by
    rw [head]
    exact headerSectors_header _ (by unfold logsize at sizeLe; omega) uint
  have slotEq {entry : Nat × Nat} (isEntry : entry ∈ middle.log.sectors.zipIdx) :
      crashed (middle.log.start + entry.2 + 1) =
        middle.device.view (middle.log.start + entry.2 + 1) := by
    have := snd_lt_of_mem_zipIdx isEntry
    exact unwritten (notLogged (by omega) (by omega)) (by omega)
  rw [← prepared.start_eq]
  refine ⟨⟨?_, ?_, ?_, ?_⟩, fun sector home => ?_⟩
  · rcases applyWrites_cases (update middle.device.disk middle.log.start
      (header (middle.device.view middle.log.start) middle.log.sectors)) done 1
      with eq | ⟨data, isWrite, eq⟩
    · have home := ready.layout.home
      rw [isCrashed, eq, update_of_ne (prepared.ne_start home), prepared.disk,
        applyWrites_slots prepared.isSlot _ (.inl home)]
      exact ready.described
    · rw [isCrashed, eq, (consistent.homeWrites_eq (isPrefix.subset isWrite)).2]
      exact described
  · rw [← prepared.start_eq, recorded]
    exact fun sector isLogged => prepared.home_iff.mp (consistent.home sector isLogged)
  · rw [← prepared.start_eq, recorded, ← prepared.size_eq]
    exact fits
  · rw [← prepared.start_eq, recorded]
    intro entry isEntry isOne
    rw [slotEq isEntry, consistent.slots entry isEntry, isOne]
    exact described
  · have writes : homeWrites crashed middle.log.start middle.log.sectors.zipIdx =
        homeWrites middle.device.view middle.log.start middle.log.sectors.zipIdx :=
      map_congr_left fun entry isEntry => by rw [slotEq isEntry]
    have notStart := prepared.ne_start home
    rw [recoveryWrites, recorded, applyWrites_append, writes, ← view sector home]
    refine (update_of_ne notStart _ _).trans ?_
    exact consistent.applyWrites_homeWrites fun absent => unwritten absent notStart

theorem applyBlocks_append (disk : Nat → Block) (first second : List (Nat × Block)) :
    applyBlocks disk (first ++ second) = applyBlocks (applyBlocks disk first) second := by
  induction first generalizing disk with
  | nil => rfl
  | cons block first ih => exact ih _

/-- A transaction returns: its blocks go to the log and are then committed. -/
theorem Store.Ready.transaction_returns (ready : store.Ready)
    (allows : store.log.Allows blocks) :
    ∃ middle slots last events, store.Prepared middle blocks slots ∧
      Returns (transaction blocks) store () last (slots ++ events) ∧ last.Ready ∧
      last.log = store.log ∧ last.device.disk = applyWrites store.device.disk (slots ++ events) ∧
      (∀ sector, store.log.Home sector →
        last.device.disk sector = applyBlocks store.device.disk blocks sector) ∧
      (events = [] ∨ events = commitWrites middle) := by
  obtain ⟨middle, slots, logs, prepared⟩ := ready.prepared allows
  obtain ⟨last, events, commits, ready', log, disk, homes, shape⟩ := prepared.commit ready allows
  refine ⟨middle, slots, last, events, prepared, ?_, ready', log, ?_, homes, ?_⟩
  · have begins : Returns beginTrans store ()
        { store with log := { store.log with busy := true } } [] := by
      refine step .get ?_ rfl
      rw [if_neg (by simp [ready.busy])]
      exact .modify
    exact begins.bind (logs.bind commits)
  · rw [disk, prepared.disk, applyWrites_append]
  · exact shape.imp And.left And.left

theorem Store.Ready.each_transaction_returns (store : Store) (ready : store.Ready)
    (transactions : List (List (Nat × Block)))
    (allows : ∀ blocks ∈ transactions, store.log.Allows blocks) :
    ∃ last events, Returns (each transaction transactions) store () last events ∧ last.Ready ∧
      last.log = store.log ∧ last.device.disk = applyWrites store.device.disk events ∧
      ∀ sector, store.log.Home sector →
        last.device.disk sector = applyBlocks store.device.disk transactions.flatten sector := by
  induction transactions generalizing store with
  | nil => exact ⟨store, [], .pure, ready, rfl, rfl, fun _ _ => rfl⟩
  | cons blocks transactions ih =>
    obtain ⟨-, slots, middle, events, -, returns, ready', log, disk, homes, -⟩ :=
      ready.transaction_returns (allows blocks mem_cons_self)
    obtain ⟨last, later, rest, ready'', log', disk', homes'⟩ := ih middle ready'
      (fun other isOther => log ▸ allows other (mem_cons_of_mem _ isOther))
    refine ⟨last, _, returns.bind rest, ready'', log'.trans log, ?_, fun sector home => ?_⟩
    · rw [disk', disk, ← applyWrites_append]
    · rw [homes' sector (log ▸ home), flatten_cons, applyBlocks_append]
      exact applyBlocks_congr (homes sector home)

/-- After a crash at any point of a transaction the disk can be recovered, with none
or all of the blocks of the transaction. -/
theorem Store.Prepared.crash {middle : Store} {slots events done : List Event}
    (prepared : store.Prepared middle blocks slots)
    (ready : store.Ready) (allows : store.log.Allows blocks)
    (shape : events = [] ∨ events = commitWrites middle)
    (homes : ∀ sector, store.log.Home sector →
      applyWrites store.device.disk (slots ++ events) sector =
        applyBlocks store.device.disk blocks sector)
    (isPrefix : done <+: slots ++ events) {crashed : Nat → Block}
    (isCrashed : crashed = applyWrites store.device.disk done) :
    store.log.Recoverable crashed ∧
      ((∀ sector, store.log.Home sector →
          applyWrites crashed (recoveryWrites store.log.start crashed) sector =
            store.device.disk sector) ∨
        ∀ sector, store.log.Home sector →
          applyWrites crashed (recoveryWrites store.log.start crashed) sector =
            applyBlocks store.device.disk blocks sector) := by
  by_cases before : done <+: slots
  · obtain ⟨recoverable, same⟩ := prepared.crash_before ready before
    rw [isCrashed]
    exact ⟨recoverable, .inl same⟩
  -- otherwise the header has been written
  have either := prefix_or_prefix_of_prefix isPrefix (prefix_append slots events)
  obtain ⟨some, rfl⟩ := either.resolve_left before
  have isSome := (prefix_append_right_inj slots).mp isPrefix
  rcases shape with rfl | rfl
  · rw [append_nil] at isPrefix
    exact (before isPrefix).elim
  rcases prefix_cons_iff.mp isSome with rfl | ⟨rest, rfl, isRest⟩
  · exact (before (by rw [append_nil])).elim
  rcases prefix_concat_iff.mp isRest with all | installing
  · -- the transaction has finished
    have last : crashed = applyWrites store.device.disk (slots ++ commitWrites middle) := by
      rw [isCrashed, all]
      rfl
    have homes : ∀ sector, store.log.Home sector →
        crashed sector = applyBlocks store.device.disk blocks sector := by
      rw [last]
      exact homes
    have none : headerSectors (crashed store.log.start) = [] := by
      rw [isCrashed, all, ← prepared.start_eq, applyWrites_append, applyWrites, applyWrites_append,
        applyWrites, applyWrites, update_self]
      exact headerSectors_header_nil _
    refine ⟨.of_nil ready.layout ?_ none, .inr fun sector home => ?_⟩
    · rw [homes 1 ready.layout.home]
      exact allows.describedBy ready.described
    · rw [applyWrites_recoveryWrites_of_nil ready.layout.size_pos none home, homes sector home]
  · obtain ⟨recoverable, same⟩ := prepared.crash_installing ready allows installing
      (show crashed = _ by rw [isCrashed, applyWrites_append, applyWrites, prepared.disk])
    exact ⟨recoverable, .inr same⟩

/-- Whatever transactions have been committed and wherever the next one is
interrupted, it is atomic. -/
theorem transactions_survive_crash {store : Store} (ready : store.Ready)
    {committed : List (List (Nat × Block))} {interrupted : List (Nat × Block)}
    (allows : ∀ blocks ∈ committed ++ [interrupted], store.log.Allows blocks) :
    store.SurvivesCrash committed interrupted := by
  obtain ⟨middle, earlier, returns, ready', log, disk, homes⟩ :=
    Store.Ready.each_transaction_returns store ready committed fun blocks isBlocks =>
      allows blocks (mem_append_left _ isBlocks)
  have allows' : middle.log.Allows interrupted := by
    rw [log]
    exact allows interrupted (by simp)
  obtain ⟨prepare, slots, last, events, prepared, returns', -, -, disk', homes', shape⟩ :=
    ready'.transaction_returns allows'
  refine ⟨middle, earlier, last, slots ++ events, returns, returns', ?_⟩
  intro done isPrefix crashed isCrashed
  rw [applyWrites_append, ← disk] at isCrashed
  obtain ⟨recoverable, outcome⟩ := prepared.crash ready' allows' shape (disk' ▸ homes') isPrefix
    isCrashed
  obtain ⟨recovered, recovers, eq⟩ := initlog_returns recoverable
  refine ⟨recovered, _, recovers, eq, ?_, fun some isSome => ?_⟩
  · rw [eq]
    rw [log] at outcome
    refine outcome.imp (fun same sector home => ?_) fun same sector home => ?_
    · rw [log, same sector home, homes sector home]
    · rw [log, same sector home, flatten_append, applyBlocks_append, flatten_singleton]
      exact applyBlocks_congr (homes sector home)
  · obtain ⟨recoverable', same⟩ := recoverable.interrupted ready'.layout isSome
    obtain ⟨again, recovers', eq'⟩ := initlog_returns recoverable'
    exact ⟨again, _, recovers', by rw [eq', eq, same]⟩

/-- A super block for a disk of 4272 blocks, the last ten for the log. -/
def blankSuper : Block :=
  (Block.zero.setWord 0 4272).setWord 3 10

/-- A disk with a super block and nothing else. -/
def blankDisk (sector : Nat) : Block :=
  if sector = 1 then blankSuper else Block.zero

theorem blankSuper_size : (Superblock.ofBlock blankSuper).size = 4272 := by
  rw [Superblock.ofBlock, blankSuper, word_setWord_of_ne _ (by decide) (by decide),
    word_setWord_self _ (by decide)]

theorem blankSuper_nlog : (Superblock.ofBlock blankSuper).nlog = 10 := by
  rw [Superblock.ofBlock, blankSuper, word_setWord_self _ (by decide)]

/-- The store of a blank disk. -/
def blankStore : Store where
  bio := .boot blankDisk
  log := { start := 4262, size := 10, busy := false, sectors := [] }

theorem blankStore_ready : blankStore.Ready where
  held := by rw [blankStore, Store.device, Bio.device_boot]
  pinned := by rw [blankStore, Store.device, Bio.device_boot]
  sectors := rfl
  busy := rfl
  layout := ⟨by decide, by decide, .inl (by decide), by decide⟩
  described := by
    rw [blankStore, Store.device, Bio.device_boot]
    dsimp only
    rw [blankDisk, if_pos rfl]
    refine ⟨?_, ?_⟩
    · rw [blankSuper_size, blankSuper_nlog]
      rfl
    · rw [blankSuper_nlog]
      rfl
  erased := by
    show headerSectors zero = []
    rw [headerSectors, word_zero]
    rfl

/-- One block is committed; the transaction with the next two may be interrupted. -/
theorem two_blocks_survive_crash : blankStore.SurvivesCrash [[(205, 1)]] [(206, 2), (207, 3)] := by
  have allows (blocks : List (Nat × Block)) (few : blocks.length < 9)
      (home : ∀ block ∈ blocks, 1 < block.1 ∧ block.1 < 4262) : blankStore.log.Allows blocks := by
    refine ⟨fun block isBlock => ⟨.inl (home block isBlock).2, ?_, ?_⟩, ?_⟩
    · have := home block isBlock
      omega
    · have := home block isBlock
      omega
    intro before block later split
    have length := congrArg List.length split
    have card := toFinset_card_le (before.map Prod.fst)
    rw [length_append] at length
    rw [length_map] at card
    show _ + 1 < 10
    omega
  refine transactions_survive_crash blankStore_ready fun blocks isBlocks => ?_
  rcases mem_cons.mp isBlocks with rfl | isLast
  · exact allows _ (by decide) (by decide)
  · rw [mem_singleton.mp isLast]
    exact allows _ (by decide) (by decide)

/-! ## Repeated crashes -/

/-- Recovery of a disk stops after some of its writes and leaves another disk. -/
def Interrupted (disk crashed : Nat → Block) : Prop :=
  ∃ last writes some, Returns initlog (.boot disk) () last writes ∧ some <+: writes ∧
    crashed = applyWrites disk some

/-- A transaction returns.  Wherever it stops, and however often recovery then stops
too, the last recovery leaves none or all of its blocks outside the log. -/
def Store.SurvivesCrashes (store : Store) (blocks : List (Nat × Block)) : Prop :=
  ∃ last writes, Returns (transaction blocks) store () last writes ∧
    ∀ done, done <+: writes → ∀ crashed,
      Relation.ReflTransGen Interrupted (applyWrites store.device.disk done) crashed →
        ∃ recovered writes', Returns initlog (.boot crashed) () recovered writes' ∧
          ((∀ sector, store.log.Home sector →
              recovered.device.disk sector = store.device.disk sector) ∨
            ∀ sector, store.log.Home sector →
              recovered.device.disk sector = applyBlocks store.device.disk blocks sector)

/-- Every interruption leaves the same disk to be recovered. -/
theorem Log.Recoverable.crashes {log : Log} {disk crashed : Nat → Block}
    (recoverable : log.Recoverable disk) (layout : log.LaidOut)
    (crashes : Relation.ReflTransGen Interrupted disk crashed) :
    log.Recoverable crashed ∧ applyWrites crashed (recoveryWrites log.start crashed) =
      applyWrites disk (recoveryWrites log.start disk) := by
  induction crashes with
  | refl => exact ⟨recoverable, rfl⟩
  | tail _ stopped ih =>
    obtain ⟨last, writes, some, returns, isPrefix, rfl⟩ := stopped
    obtain ⟨_, returns', -⟩ := initlog_returns ih.1
    have writes_eq : writes = _ := congrArg Outcome.events (returns.symm.trans returns')
    obtain ⟨recoverable, same⟩ := ih.1.interrupted layout (writes_eq ▸ isPrefix)
    exact ⟨recoverable, same.trans ih.2⟩

theorem transaction_survives_crashes {store : Store} (ready : store.Ready)
    {blocks : List (Nat × Block)} (allows : store.log.Allows blocks) :
    store.SurvivesCrashes blocks := by
  obtain ⟨prepare, slots, last, events, prepared, returns, -, -, disk, homes, shape⟩ :=
    ready.transaction_returns allows
  refine ⟨last, _, returns, fun done isPrefix crashed crashes => ?_⟩
  obtain ⟨recoverable, outcome⟩ := prepared.crash ready allows shape (disk ▸ homes) isPrefix rfl
  obtain ⟨recoverable', same⟩ := recoverable.crashes ready.layout crashes
  obtain ⟨recovered, recovers, eq⟩ := initlog_returns recoverable'
  refine ⟨recovered, _, recovers, ?_⟩
  rw [eq, same]
  exact outcome

theorem one_block_survives_crashes : blankStore.SurvivesCrashes [(205, 1)] := by
  refine transaction_survives_crashes blankStore_ready ⟨?_, ?_⟩
  · rintro _ (_ | ⟨_, ⟨⟩⟩)
    exact ⟨.inl (by decide), by decide, nofun⟩
  · rintro (_ | ⟨_, _ | _⟩) block later ⟨⟩
    decide

end XEditor.Fs
