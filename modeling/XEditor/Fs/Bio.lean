import XEditor.Fs.Block
import XEditor.Lib.Cache
import XEditor.Lib.Program

/-!
# The buffer cache

Source `bio.c` and the disk below it.  One process runs at a time, so a call that
would sleep never returns.  A buffer is named by its sector.  A caller that
changes the data of a buffer it holds passes the new data to `log_write` or
`bwrite`.

Above the cache stands a device that has no buffers: what a read of each sector
gives, what is on the disk, and which sectors are held and which are pinned.
-/

namespace XEditor.Fs

open Option Function Cache Finset

/-! ## State -/

/-- Source `NBUF`. -/
def nbuf : Nat := 10

/-- The flags and the data of a `struct buf`. -/
structure Buf where
  busy : Bool
  valid : Bool
  dirty : Bool
  data : Block

/-- The disk and the buffers.  A valid buffer that is not dirty agrees with the disk,
a dirty one is valid, and one without a sector is free. -/
structure Bio where
  disk : Nat → Block
  cache : Cache Nat Buf nbuf
  clean : ∀ sector buf, cache.get? sector = some buf → buf.valid = true → buf.dirty = false →
    buf.data = disk sector
  valid : ∀ sector buf, cache.get? sector = some buf → buf.dirty = true → buf.valid = true
  unused : ∀ buf, (none, buf) ∈ cache.lines → buf.busy = false ∧ buf.dirty = false

/-- `struct log`.  The header in memory is the list of its sectors. -/
structure Log where
  start : Nat
  size : Nat
  busy : Bool
  sectors : List Nat

/-- The disk, the buffer cache and the log. -/
structure Store where
  bio : Bio
  log : Log

/-- The messages of `panic`. -/
inductive Panic where
  | bgetNoBuffers
  | bwrite
  | brelse
  | iderwNotBusy
  | iderwNothingToDo
  | tooBigTransaction
  | writeOutsideTrans
  | ballocOutOfBlocks
  | igetNoInodes
  | ilock
  | ilockNoType
  | iunlock
  | bmapOutOfRange
  | dirlookupNotDir
  | dirlinkRead
  deriving DecidableEq, Repr

/-- Why a run does not return: a panic, or a sleep that nobody ends. -/
inductive Halt where
  | panic (message : Panic)
  | sleep
  deriving DecidableEq, Repr

/-- What a run reports: a sector written to the disk, and a block handed out by
`balloc` with the state in which it was called. -/
inductive Event where
  | write (sector : Nat) (data : Block)
  | alloc (before : Store) (block : Nat)

/-- Kernel code over a part of its state. -/
abbrev Code (σ α : Type) := Program σ Halt Event α

/-- Source `panic`. -/
def panic {σ α : Type} (message : Panic) : Code σ α :=
  Program.halt (.panic message)

namespace Bio

/-- The buffer of a sector and the sector on the disk change. -/
def change (bio : Bio) (sector : Nat) (disk : Nat → Block) (change : Buf → Buf)
    (others : ∀ other, other ≠ sector → disk other = bio.disk other)
    (agrees : ∀ buf, bio.cache.get? sector = some buf → (change buf).valid = true →
      (change buf).dirty = false → (change buf).data = disk sector)
    (valid : ∀ buf, bio.cache.get? sector = some buf → (change buf).dirty = true →
      (change buf).valid = true) : Bio where
  disk := disk
  cache := bio.cache.modify sector change
  clean := by
    intro other buf isBuf valid dirty
    rw [Cache.get?_modify] at isBuf
    split at isBuf
    · rename_i same
      subst same
      obtain ⟨old, isOld, rfl⟩ := map_eq_some_iff.mp isBuf
      exact agrees old isOld valid dirty
    · rename_i different
      rw [others other different]
      exact bio.clean other buf isBuf valid dirty
  valid := by
    intro other buf isBuf dirty
    rw [Cache.get?_modify] at isBuf
    split at isBuf
    · rename_i same
      subst same
      obtain ⟨old, isOld, rfl⟩ := map_eq_some_iff.mp isBuf
      exact valid old isOld dirty
    · exact bio.valid other buf isBuf dirty
  unused := fun buf isBuf => bio.unused buf (Cache.mem_lines_modify_none isBuf)

/-- The flag `B_BUSY` of a buffer changes. -/
def setBusy (bio : Bio) (sector : Nat) (busy : Bool) : Bio :=
  bio.change sector bio.disk (fun buf => { buf with busy }) (fun _ _ => rfl)
    (bio.clean sector) (bio.valid sector)

/-- The data of a buffer changes, and it is dirty.  The buffer comes from `bread`, so
it is valid. -/
def setDirty (bio : Bio) (sector : Nat) (data : Block) : Bio :=
  bio.change sector bio.disk (fun buf => { buf with data, valid := true, dirty := true })
    (fun _ _ => rfl) (fun _ _ _ clean => nomatch clean) (fun _ _ _ => rfl)

/-- The disk reads a sector into its buffer. -/
def readSector (bio : Bio) (sector : Nat) : Bio :=
  bio.change sector bio.disk
    (fun buf => { buf with data := bio.disk sector, valid := true, dirty := false })
    (fun _ _ => rfl) (fun _ _ _ _ => rfl) (fun _ _ dirty => nomatch dirty)

/-- The disk writes a sector. -/
def writeSector (bio : Bio) (sector : Nat) (data : Block) : Bio :=
  bio.change sector (Function.update bio.disk sector data)
    (fun buf => { buf with data, valid := true, dirty := false })
    (fun _ different => update_of_ne different _ _)
    (fun _ _ _ _ => by rw [update_self]) (fun _ _ dirty => nomatch dirty)

/-- A buffer becomes the most recently used one. -/
def touch (bio : Bio) (sector : Nat) : Bio where
  disk := bio.disk
  cache := bio.cache.touch sector
  clean := fun other buf isBuf => bio.clean other buf (by rwa [Cache.get?_touch] at isBuf)
  valid := fun other buf isBuf => bio.valid other buf (by rwa [Cache.get?_touch] at isBuf)
  unused := fun buf isBuf => bio.unused buf (Cache.mem_lines_touch.mp isBuf)

/-- A buffer that is neither busy nor dirty. -/
def isFree (buf : Buf) : Bool :=
  !buf.busy && !buf.dirty

/-- The least recently used free buffer is taken for a sector. -/
def recycle (bio : Bio) (sector : Nat) (absent : bio.cache.get? sector = none) : Option Bio :=
  match eq : bio.cache.recycle isFree sector
      (fun buf => { buf with busy := true, valid := false, dirty := false }) absent with
  | none => none
  | some cache =>
    some
      { disk := bio.disk
        cache
        clean := by
          intro other buf isBuf valid dirty
          by_cases same : other = sector
          · subst same
            obtain ⟨old, isNew⟩ := Cache.get?_recycle_self eq
            rw [isNew] at isBuf
            cases isBuf
            cases valid
          · rcases Cache.get?_recycle_of_ne eq same with kept | ⟨_, _, _, gone⟩
            · exact bio.clean other buf (kept ▸ isBuf) valid dirty
            · rw [gone] at isBuf
              cases isBuf
        valid := by
          intro other buf isBuf dirty
          by_cases same : other = sector
          · subst same
            obtain ⟨old, isNew⟩ := Cache.get?_recycle_self eq
            rw [isNew] at isBuf
            cases isBuf
            cases dirty
          · rcases Cache.get?_recycle_of_ne eq same with kept | ⟨_, _, _, gone⟩
            · exact bio.valid other buf (kept ▸ isBuf) dirty
            · rw [gone] at isBuf
              cases isBuf
        unused := fun buf isBuf => bio.unused buf (Cache.mem_lines_recycle_none eq isBuf) }

end Bio

/-! ## Source -/

/-- Source `bget`. -/
def bget (sector : Nat) : Code Bio Unit := fun bio =>
  match absent : bio.cache.get? sector with
  | some buf =>
    if buf.busy then ⟨.error .sleep, bio, []⟩ else ⟨.ok (), bio.setBusy sector true, []⟩
  | none =>
    match bio.recycle sector absent with
    | some recycled => ⟨.ok (), recycled, []⟩
    | none => ⟨.error (.panic .bgetNoBuffers), bio, []⟩

/-- Source `iderw`. -/
def iderw (sector : Nat) : Code Bio Unit := do
  let bio ← Program.get
  match bio.cache.get? sector with
  | none => panic .iderwNotBusy
  | some buf =>
    if !buf.busy then panic .iderwNotBusy
    else if buf.dirty then do
      Program.modify (·.writeSector sector buf.data)
      Program.report (.write sector buf.data)
    else if buf.valid then panic .iderwNothingToDo
    else Program.modify (·.readSector sector)

/-- Source `bread`: the data of the buffer. -/
def bread (sector : Nat) : Code Bio Block := do
  bget sector
  let bio ← Program.get
  if (bio.cache.get? sector).all fun buf => !buf.valid then
    iderw sector
  let bio ← Program.get
  pure (((bio.cache.get? sector).map Buf.data).getD 0)

/-- Source `bwrite`, with the data of the buffer. -/
def bwrite (sector : Nat) (data : Block) : Code Bio Unit := do
  let bio ← Program.get
  if (bio.cache.get? sector).all fun buf => !buf.busy then panic .bwrite
  else do
    Program.modify (·.setDirty sector data)
    iderw sector

/-- Source `brelse`. -/
def brelse (sector : Nat) : Code Bio Unit := do
  let bio ← Program.get
  if (bio.cache.get? sector).all fun buf => !buf.busy then panic .brelse
  else Program.modify fun bio => (bio.touch sector).setBusy sector false

/-! ## The device -/

/-- A disk whose sectors can be held, and pinned with a content of their own. -/
@[ext]
structure Device where
  view : Nat → Block
  disk : Nat → Block
  held : Finset Nat
  pinned : Finset Nat

namespace Device

/-- Take a sector. -/
@[simps -fullyApplied]
def hold (device : Device) (sector : Nat) : Device :=
  { device with held := insert sector device.held }

/-- Give a sector back. -/
@[simps -fullyApplied]
def release (device : Device) (sector : Nat) : Device :=
  { device with held := device.held.erase sector }

/-- Write a sector to the disk. -/
@[simps -fullyApplied]
def write (device : Device) (sector : Nat) (data : Block) : Device :=
  { device with
    view := Function.update device.view sector data
    disk := Function.update device.disk sector data
    pinned := device.pinned.erase sector }

/-- Change what a sector holds without writing it to the disk. -/
@[simps -fullyApplied]
def pin (device : Device) (sector : Nat) (data : Block) : Device :=
  { device with
    view := Function.update device.view sector data
    pinned := insert sector device.pinned }

end Device

variable {bio : Bio} {sector : Nat} {buf : Buf}

namespace Bio

/-- What a read of a sector gives. -/
def view (bio : Bio) (sector : Nat) : Block :=
  match bio.cache.get? sector with
  | some buf => if buf.dirty then buf.data else bio.disk sector
  | none => bio.disk sector

/-- The device that the buffers implement. -/
def device (bio : Bio) : Device where
  view := bio.view
  disk := bio.disk
  held := bio.cache.keysWhere Buf.busy
  pinned := bio.cache.keysWhere Buf.dirty

theorem mem_held :
    sector ∈ bio.device.held ↔ ∃ buf, bio.cache.get? sector = some buf ∧ buf.busy = true :=
  mem_keysWhere

theorem mem_pinned :
    sector ∈ bio.device.pinned ↔ ∃ buf, bio.cache.get? sector = some buf ∧ buf.dirty = true :=
  mem_keysWhere

/-- The buffers at boot. -/
def boot (disk : Nat → Block) : Bio where
  disk := disk
  cache :=
    { lines := List.replicate nbuf (none, ⟨false, false, false, 0⟩)
      length_lines := List.length_replicate
      nodup := by rw [List.filterMap_replicate_of_none rfl]; exact List.nodup_nil }
  clean := by
    intro sector buf isBuf
    rw [Cache.get?_eq_some_iff, List.mem_replicate] at isBuf
    cases isBuf.2
  valid := by
    intro sector buf isBuf
    rw [Cache.get?_eq_some_iff, List.mem_replicate] at isBuf
    cases isBuf.2
  unused := by
    intro buf isBuf
    cases (List.mem_replicate.mp isBuf).2
    exact ⟨rfl, rfl⟩

theorem device_boot (disk : Nat → Block) : (Bio.boot disk).device = ⟨disk, disk, ∅, ∅⟩ := by
  have absent (sector : Nat) : (Bio.boot disk).cache.get? sector = none := by
    rw [Cache.get?_eq_none_iff]
    intro buf isBuf
    cases (List.mem_replicate.mp isBuf).2
  refine Device.ext (funext fun sector => ?_) rfl ?_ ?_
  · rfl
  · ext sector
    rw [Bio.mem_held, absent]
    simp
  · ext sector
    rw [Bio.mem_pinned, absent]
    simp

/-- A sector that is not pinned is read from the disk. -/
theorem view_of_not_pinned (free : sector ∉ bio.device.pinned) :
    bio.device.view sector = bio.device.disk sector := by
  show bio.view sector = bio.disk sector
  unfold view
  split
  · rename_i buf isBuf
    rw [if_neg fun dirty => free (mem_pinned.mpr ⟨buf, isBuf, dirty⟩)]
  · rfl

/-- The device after a buffer has changed. -/
theorem device_change {disk : Nat → Block} {change : Buf → Buf}
    {others : ∀ other, other ≠ sector → disk other = bio.disk other}
    {agrees : ∀ buf, bio.cache.get? sector = some buf → (change buf).valid = true →
      (change buf).dirty = false → (change buf).data = disk sector}
    {valid : ∀ buf, bio.cache.get? sector = some buf → (change buf).dirty = true →
      (change buf).valid = true} (isBuf : bio.cache.get? sector = some buf) :
    (bio.change sector disk change others agrees valid).device =
      { view := update bio.view sector
          (if (change buf).dirty then (change buf).data else disk sector)
        disk
        held := if (change buf).busy then insert sector bio.device.held
          else bio.device.held.erase sector
        pinned := if (change buf).dirty then insert sector bio.device.pinned
          else bio.device.pinned.erase sector } := by
  have get (other : Nat) : (bio.change sector disk change others agrees valid).cache.get? other =
      if other = sector then some (change buf) else bio.cache.get? other := by
    refine (get?_modify bio.cache sector other change).trans ?_
    split
    · rename_i same
      rw [same, isBuf, map_some]
    · rfl
  have keys (property : Buf → Bool) :
      (bio.change sector disk change others agrees valid).cache.keysWhere property =
        if property (change buf) then insert sector (bio.cache.keysWhere property)
        else (bio.cache.keysWhere property).erase sector := by
    ext other
    rw [mem_keysWhere, get]
    by_cases same : other = sector
    · subst same
      cases holds : property (change buf) <;> simp [holds]
    rw [if_neg same]
    split
    · rw [mem_insert, mem_keysWhere, or_iff_right same]
    · rw [mem_erase, mem_keysWhere, and_iff_right same]
  refine Device.ext (funext fun other => ?_) rfl (keys Buf.busy) (keys Buf.dirty)
  show (bio.change sector disk change others agrees valid).view other =
    update bio.view sector
      (if (change buf).dirty then (change buf).data else disk sector) other
  by_cases same : other = sector
  · subst same
    rw [update_self, view, get, if_pos rfl]
    rfl
  · rw [update_of_ne same, view, get, if_neg same, view, ← others other same]
    rfl

theorem device_setBusy (isBuf : bio.cache.get? sector = some buf) (busy : Bool) :
    (bio.setBusy sector busy).device =
      { bio.device with
        held := if busy then insert sector bio.device.held else bio.device.held.erase sector } := by
  refine (device_change isBuf).trans (Device.ext ?_ rfl rfl ?_)
  · have same : (if buf.dirty then buf.data else bio.disk sector) = bio.view sector := by
      rw [view, isBuf]
    rw [same, update_eq_self]
    rfl
  · split
    · rename_i dirty
      exact insert_eq_self.mpr (mem_pinned.mpr ⟨buf, isBuf, dirty⟩)
    rename_i clean
    refine erase_eq_self.mpr fun isPinned => clean ?_
    obtain ⟨other, isOther, dirty⟩ := mem_pinned.mp isPinned
    rw [isBuf] at isOther
    cases isOther
    exact dirty

section

variable (isHeld : sector ∈ bio.device.held)
include isHeld

theorem device_setDirty (data : Block) :
    (bio.setDirty sector data).device = bio.device.pin sector data := by
  obtain ⟨buf, isBuf, busy⟩ := mem_held.mp isHeld
  refine (device_change isBuf).trans (Device.ext rfl rfl ?_ rfl)
  rw [if_pos busy, insert_eq_self.mpr isHeld, Device.pin_held]

theorem device_writeSector (data : Block) :
    (bio.writeSector sector data).device = bio.device.write sector data := by
  obtain ⟨buf, isBuf, busy⟩ := mem_held.mp isHeld
  refine (device_change isBuf).trans (Device.ext ?_ rfl ?_ rfl)
  · rw [update_self]
    rfl
  · rw [if_pos busy, insert_eq_self.mpr isHeld, Device.write_held]

theorem device_readSector (free : sector ∉ bio.device.pinned) :
    (bio.readSector sector).device = bio.device := by
  obtain ⟨buf, isBuf, busy⟩ := mem_held.mp isHeld
  refine (device_change isBuf).trans (Device.ext ?_ rfl ?_ ?_)
  · have same : bio.disk sector = bio.view sector := (view_of_not_pinned free).symm
    rw [same]
    exact update_eq_self ..
  · rw [if_pos busy, insert_eq_self.mpr isHeld]
  · exact erase_eq_self.mpr free

end

@[simp]
theorem device_touch (bio : Bio) (sector : Nat) : (bio.touch sector).device = bio.device := by
  have keys (property : Buf → Bool) :
      (bio.cache.touch sector).keysWhere property = bio.cache.keysWhere property := by
    ext other
    rw [mem_keysWhere, mem_keysWhere, get?_touch]
  refine Device.ext (funext fun other => ?_) rfl (keys _) (keys _)
  show (bio.touch sector).view other = bio.view other
  unfold view
  show (match (bio.cache.touch sector).get? other with
    | some buf => if buf.dirty then buf.data else bio.disk other
    | none => bio.disk other) = _
  rw [get?_touch]

theorem device_recycle {bio recycled : Bio} {absent : bio.cache.get? sector = none}
    (eq : bio.recycle sector absent = some recycled) :
    recycled.device = bio.device.hold sector ∧
      ∃ buf, recycled.cache.get? sector = some buf ∧ buf.valid = false ∧ buf.busy = true := by
  unfold recycle at eq
  split at eq
  · cases eq
  rename_i cache isCache
  cases eq
  obtain ⟨old, isNew⟩ := get?_recycle_self isCache
  refine ⟨?_, _, isNew, rfl, rfl⟩
  have others {other : Nat} (different : other ≠ sector) :
      cache.get? other = bio.cache.get? other ∨
        ∃ buf, bio.cache.get? other = some buf ∧ buf.busy = false ∧ buf.dirty = false ∧
          cache.get? other = none := by
    rcases get?_recycle_of_ne isCache different with kept | ⟨buf, isBuf, free, gone⟩
    · exact .inl kept
    · simp only [isFree, Bool.and_eq_true, Bool.not_eq_true'] at free
      exact .inr ⟨buf, isBuf, free.1, free.2, gone⟩
  refine Device.ext (funext fun other => ?_) rfl ?_ ?_
  · show (match cache.get? other with
      | some buf => if buf.dirty then buf.data else bio.disk other
      | none => bio.disk other) = bio.view other
    unfold view
    by_cases same : other = sector
    · rw [same, isNew, absent]
      rfl
    rcases others same with kept | ⟨buf, isBuf, -, clean, gone⟩
    · rw [kept]
    · rw [gone, isBuf]
      simp [clean]
  · ext other
    show other ∈ cache.keysWhere Buf.busy ↔ other ∈ insert sector bio.device.held
    rw [mem_insert, mem_keysWhere, mem_held]
    by_cases same : other = sector
    · simp [same, isNew]
    · rcases others same with kept | ⟨buf, isBuf, free, -, gone⟩
      · rw [kept, or_iff_right same]
      · simp [gone, isBuf, free, same]
  · ext other
    show other ∈ cache.keysWhere Buf.dirty ↔ other ∈ bio.device.pinned
    rw [mem_keysWhere, mem_pinned]
    by_cases same : other = sector
    · simp [same, isNew, absent]
    · rcases others same with kept | ⟨buf, isBuf, -, clean, gone⟩
      · rw [kept]
      · simp [gone, isBuf, clean]

/-- A buffer can be recycled as long as the held and the pinned sectors leave one. -/
theorem recycle_ne_none {absent : bio.cache.get? sector = none}
    (room : (bio.device.held ∪ bio.device.pinned).card < nbuf) :
    bio.recycle sector absent ≠ none := by
  have taken : bio.cache.keysWhere (fun buf => !isFree buf) =
      bio.device.held ∪ bio.device.pinned := by
    ext other
    rw [mem_union, mem_held, mem_pinned, mem_keysWhere, ← exists_or]
    refine exists_congr fun buf => ?_
    rw [isFree]
    cases buf.busy <;> cases buf.dirty <;> simp
  rw [← taken] at room
  obtain ⟨line, isLine, free⟩ := exists_line_of_card_lt (fun buf isBuf => by
    obtain ⟨busy, dirty⟩ := bio.unused buf isBuf
    simp [isFree, busy, dirty]) room
  have suitable : isFree line.2 = true := by simpa using free
  unfold recycle
  split
  · rename_i eq
    exact absurd eq (Cache.recycle_ne_none isLine suitable)
  · exact some_ne_none _

end Bio

/-! ## The buffers implement the device -/

open Program

/-- A sector that is not held can be held if a buffer is left for it. -/
theorem bget_returns (free : sector ∉ bio.device.held)
    (room : (insert sector (bio.device.held ∪ bio.device.pinned)).card ≤ nbuf) :
    ∃ last, Returns (bget sector) bio () last [] ∧ last.device = bio.device.hold sector := by
  unfold Returns bget
  split
  · rename_i buf isBuf
    have notBusy : ¬ buf.busy = true := fun busy => free (Bio.mem_held.mpr ⟨buf, isBuf, busy⟩)
    rw [if_neg notBusy]
    exact ⟨_, rfl, Bio.device_setBusy isBuf true⟩
  · rename_i absent
    have fresh : sector ∉ bio.device.held ∪ bio.device.pinned := by
      rw [mem_union, Bio.mem_held, Bio.mem_pinned, absent]
      simp
    rw [card_insert_of_notMem fresh] at room
    have possible : bio.recycle sector absent ≠ none := Bio.recycle_ne_none room
    obtain ⟨recycled, isRecycled⟩ := ne_none_iff_exists'.mp possible
    rw [isRecycled]
    exact ⟨recycled, rfl, (Bio.device_recycle isRecycled).1⟩

open Returns

section

variable (isBuf : bio.cache.get? sector = some buf)
include isBuf

/-- A valid buffer holds what a read of its sector gives. -/
theorem Bio.data_eq_view (valid : buf.valid = true) : buf.data = bio.device.view sector := by
  show buf.data = bio.view sector
  rw [view, isBuf]
  dsimp only
  split
  · rfl
  · rename_i clean
    exact bio.clean sector buf isBuf valid (by simpa using clean)

theorem iderw_returns_of_invalid (busy : buf.busy = true) (invalid : buf.valid = false) :
    Returns (iderw sector) bio () (bio.readSector sector) [] := by
  have clean : buf.dirty = false := by
    by_contra dirty
    rw [bio.valid sector buf isBuf (by simpa using dirty)] at invalid
    cases invalid
  refine bind .get ?_
  rw [isBuf]
  dsimp only
  rw [if_neg (by simp [busy]), if_neg (by simp [clean]), if_neg (by simp [invalid])]
  exact .modify

theorem iderw_returns_of_dirty (busy : buf.busy = true) (dirty : buf.dirty = true) :
    Returns (iderw sector) bio () (bio.writeSector sector buf.data) [.write sector buf.data] := by
  refine bind .get ?_
  rw [isBuf]
  dsimp only
  rw [if_neg (by simp [busy]), if_pos dirty]
  exact bind .modify .report

end

variable (bio : Bio) (sector : Nat)

theorem bread_returns (free : sector ∉ bio.device.held)
    (room : (insert sector (bio.device.held ∪ bio.device.pinned)).card ≤ nbuf) :
    ∃ last, Returns (bread sector) bio (bio.device.view sector) last [] ∧
      last.device = bio.device.hold sector := by
  obtain ⟨taken, gets, device⟩ := bget_returns free room
  have isHeld : sector ∈ taken.device.held := by
    rw [device]
    exact mem_insert_self _ _
  obtain ⟨buf, isBuf, busy⟩ := Bio.mem_held.mp isHeld
  have view : taken.device.view sector = bio.device.view sector := by
    rw [device, Device.hold_view]
  cases valid : buf.valid with
  | true =>
    refine ⟨taken, gets.bind (bind .get ?_), device⟩
    rw [if_neg (by simp [isBuf, valid])]
    refine bind .get ?_
    rw [isBuf, map_some, Bio.data_eq_view isBuf valid, view]
    exact .pure
  | false =>
    have clean : sector ∉ taken.device.pinned := fun isPinned => by
      obtain ⟨other, isOther, dirty⟩ := Bio.mem_pinned.mp isPinned
      rw [isBuf] at isOther
      cases isOther
      rw [taken.valid sector buf isBuf dirty] at valid
      cases valid
    have read : (taken.readSector sector).cache.get? sector =
        some { buf with data := taken.disk sector, valid := true, dirty := false } := by
      refine (get?_modify ..).trans ?_
      rw [if_pos rfl, isBuf, map_some]
    refine ⟨taken.readSector sector, gets.bind (bind .get ?_), ?_⟩
    · rw [if_pos (by simp [isBuf, valid])]
      refine bind (iderw_returns_of_invalid isBuf busy valid) (bind .get ?_)
      have data : taken.disk sector = bio.device.view sector := by
        rw [← view]
        exact (Bio.view_of_not_pinned clean).symm
      rw [read, data]
      exact .pure
    · rw [Bio.device_readSector isHeld clean, device]

theorem bwrite_returns (isHeld : sector ∈ bio.device.held) (data : Block) :
    ∃ last, Returns (bwrite sector data) bio () last [.write sector data] ∧
      last.device = bio.device.write sector data := by
  obtain ⟨buf, isBuf, busy⟩ := Bio.mem_held.mp isHeld
  have dirty : (bio.setDirty sector data).cache.get? sector =
      some { buf with data, valid := true, dirty := true } := by
    refine (get?_modify ..).trans ?_
    rw [if_pos rfl, isBuf, map_some]
  have device := Bio.device_setDirty isHeld data
  have stillHeld : sector ∈ (bio.setDirty sector data).device.held := by
    rw [device]
    exact isHeld
  refine ⟨(bio.setDirty sector data).writeSector sector data, bind .get ?_, ?_⟩
  · rw [if_neg (by simp [isBuf, busy])]
    exact bind .modify (iderw_returns_of_dirty dirty busy rfl)
  rw [Bio.device_writeSector stillHeld, device]
  refine Device.ext ?_ rfl rfl ?_
  · simp only [Device.write_view, Device.pin_view, update_idem]
  · simp only [Device.write_pinned, Device.pin_pinned, erase_insert_eq_erase]

theorem brelse_returns (isHeld : sector ∈ bio.device.held) :
    ∃ last, Returns (brelse sector) bio () last [] ∧ last.device = bio.device.release sector := by
  obtain ⟨buf, isBuf, busy⟩ := Bio.mem_held.mp isHeld
  refine ⟨(bio.touch sector).setBusy sector false, bind .get ?_, ?_⟩
  · rw [if_neg (by simp [isBuf, busy])]
    exact .modify
  have isBuf : (bio.touch sector).cache.get? sector = some buf :=
    (get?_touch ..).trans isBuf
  rw [Bio.device_setBusy isBuf false, Bio.device_touch]
  rfl

end XEditor.Fs
