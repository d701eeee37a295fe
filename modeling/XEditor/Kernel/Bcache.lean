import Mathlib.Algebra.Ring.Nat
import Mathlib.Data.Fintype.Card
import XEditor.Lib.LinkedRing
import XEditor.Lib.Run

/-!
# The buffer cache under concurrent calls

Source `bio.c` and `iderw` and `ideintr` of `ide.c`, for any number of processes.
A section under `bcache.lock` or `idelock` is one step, and so is each test or
assignment between two sections.  The steps of all processes and the interrupts
of the disk interleave in any order.

A process calls `bwrite`, `log_write` and `brelse` with buffers it has from
`bread`; the buffers in its hands are recorded, and no step of the source reads
them.  The contents of the buffers are left out.
-/

namespace XEditor.Kernel.Bcache

open List Option Function

/-- Source `NBUF`. -/
def nbuf : Nat := 10

instance : NeZero nbuf :=
  ⟨by decide⟩

/-- A pointer to a buffer.  The head of the list of buffers is `none`. -/
abbrev BufPtr := Fin nbuf

/-- Source `struct buf`: its flags `B_BUSY`, `B_VALID` and `B_DIRTY`, its device and
its sector. -/
structure Buf where
  busy : Bool
  valid : Bool
  dirty : Bool
  dev : BitVec 32
  sector : BitVec 32
  deriving DecidableEq, Repr

/-- The device of a buffer that has not been used, -1. -/
def noDev : BitVec 32 := BitVec.allOnes 32

/-- Where a process is.  In `bget` it is in front of the section under `bcache.lock`
or asleep on a buffer; in `iderw` it is in front of the checks, in front of the
section under `idelock`, asleep on its buffer, or woken up. -/
inductive Point where
  | idle
  | bget (dev sector : BitVec 32)
  | bgetSleep (b : BufPtr) (dev sector : BitVec 32)
  | bread (b : BufPtr)
  | bwrite (b : BufPtr)
  | iderw (b : BufPtr)
  | iderwLock (b : BufPtr)
  | iderwSleep (b : BufPtr)
  | iderwWoken (b : BufPtr)
  | brelse (b : BufPtr)
  deriving DecidableEq, Repr

namespace Point

/-- The channel a process sleeps on. -/
def chan : Point → Option BufPtr
  | .bgetSleep b _ _ => some b
  | .iderwSleep b => some b
  | _ => none

/-- Where a process goes on when it is woken up. -/
def woken : Point → Point
  | .bgetSleep _ dev sector => .bget dev sector
  | .iderwSleep b => .iderwWoken b
  | point => point

end Point

/-- The list of buffers, the buffers, the queue of the disk, and for each process
where it is and which buffers it has. -/
structure State (ι : Type) where
  ring : LinkedRing BufPtr
  buf : BufPtr → Buf
  idequeue : List BufPtr
  point : ι → Point
  hand : ι → Finset BufPtr

/-- What can happen next: a process that is in no call makes one, a process goes
on, the disk interrupts, or a process is killed. -/
inductive Event (ι : Type) where
  | bread (p : ι) (dev sector : BitVec 32)
  | bwrite (p : ι) (b : BufPtr)
  | logWrite (p : ι) (b : BufPtr)
  | brelse (p : ι) (b : BufPtr)
  | run (p : ι)
  | ideintr
  | kill (p : ι)

namespace State

variable {ι : Type}

/-- The request of `iderw` is finished. -/
def synced (state : State ι) (b : BufPtr) : Bool :=
  (state.buf b).valid && !(state.buf b).dirty

/-- Store a buffer. -/
def setBuf (state : State ι) (b : BufPtr) (buf : Buf) : State ι :=
  { state with buf := Function.update state.buf b buf }

/-- Source `wakeup`. -/
def wakeup (state : State ι) (b : BufPtr) : State ι :=
  { state with
    point := fun p =>
      if (state.point p).chan = some b then (state.point p).woken else state.point p }

/-- The first loop of `bget`: the buffer of a sector.  The outer `none` is a loop
that does not end. -/
def cached (state : State ι) (dev sector : BitVec 32) : Option (Option BufPtr) :=
  LinkedRing.walk state.ring.next
    (fun b => (state.buf b).dev == dev && (state.buf b).sector == sector) (nbuf + 1)
    (state.ring.next none)

/-- The second loop of `bget`: a buffer that can be recycled. -/
def recyclable (state : State ι) : Option (Option BufPtr) :=
  LinkedRing.walk state.ring.prev
    (fun b => !(state.buf b).busy && !(state.buf b).dirty) (nbuf + 1) (state.ring.prev none)

/-- Source `ideintr`. -/
def ideintr (state : State ι) : State ι :=
  match state.idequeue with
  | [] => state
  | b :: rest =>
    ({ state with idequeue := rest }.setBuf b
      { state.buf b with valid := true, dirty := false }).wakeup b

variable [DecidableEq ι]

/-- Move a process. -/
def goto (state : State ι) (p : ι) (point : Point) : State ι :=
  { state with point := Function.update state.point p point }

/-- `bget` returns a buffer, with new contents of its fields. -/
def take (state : State ι) (p : ι) (b : BufPtr) (buf : Buf) : State ι :=
  { state.setBuf b buf with
    hand := Function.update state.hand p (insert b (state.hand p)) }.goto p (.bread b)

/-- The section of source `bget`. -/
def bget (state : State ι) (p : ι) (dev sector : BitVec 32) : Option (State ι) := do
  match ← state.cached dev sector with
  | some b =>
    if (state.buf b).busy then some (state.goto p (.bgetSleep b dev sector))
    else some (state.take p b { state.buf b with busy := true })
  | none =>
    match ← state.recyclable with
    | some b => some (state.take p b ⟨true, false, false, dev, sector⟩)
    | none => none

/-- The checks of source `iderw`. -/
def iderw (havedisk1 : Bool) (state : State ι) (p : ι) (b : BufPtr) : Option (State ι) :=
  if !(state.buf b).busy then none
  else if state.synced b then none
  else if (state.buf b).dev ≠ 0 ∧ !havedisk1 then none
  else some (state.goto p (.iderwLock b))

/-- The test of the waiting loop of `iderw`. -/
def iderwWait (state : State ι) (p : ι) (b : BufPtr) : State ι :=
  state.goto p (if state.synced b then .idle else .iderwSleep b)

/-- The section of source `brelse`. -/
def brelse (state : State ι) (p : ι) (b : BufPtr) : State ι :=
  let released := state.setBuf b { state.buf b with busy := false }
  ({ released with
    ring := (state.ring.unlink b).pushFront b
    hand := Function.update state.hand p ((state.hand p).erase b) }.wakeup b).goto p .idle

/-- A process goes on; a process that sleeps does not. -/
def run (havedisk1 : Bool) (state : State ι) (p : ι) : Option (State ι) :=
  match state.point p with
  | .bget dev sector => state.bget p dev sector
  | .bread b => some (state.goto p (if (state.buf b).valid then .idle else .iderw b))
  | .bwrite b =>
    if (state.buf b).busy then
      some ((state.setBuf b { state.buf b with dirty := true }).goto p (.iderw b))
    else none
  | .iderw b => iderw havedisk1 state p b
  | .iderwLock b => some ({ state with idequeue := state.idequeue ++ [b] }.iderwWait p b)
  | .iderwWoken b => some (state.iderwWait p b)
  | .brelse b => some (state.brelse p b)
  | .idle | .bgetSleep _ _ _ | .iderwSleep _ => none

/-- A call with a buffer from `bread`, by a process that is in no call. -/
def MayUse (state : State ι) (p : ι) (b : BufPtr) : Prop :=
  state.point p = .idle ∧ b ∈ state.hand p

instance (state : State ι) (p : ι) (b : BufPtr) : Decidable (state.MayUse p b) :=
  inferInstanceAs (Decidable (_ ∧ _))

/-- The state after an event; `none` when the event cannot happen or the kernel
panics. -/
def step (havedisk1 : Bool) (state : State ι) : Event ι → Option (State ι)
  | .bread p dev sector =>
    if state.point p = .idle then some (state.goto p (.bget dev sector)) else none
  | .bwrite p b => if state.MayUse p b then some (state.goto p (.bwrite b)) else none
  | .logWrite p b =>
    if state.MayUse p b then some (state.setBuf b { state.buf b with dirty := true }) else none
  | .brelse p b =>
    if state.MayUse p b ∧ (state.buf b).busy then some (state.goto p (.brelse b)) else none
  | .run p => run havedisk1 state p
  | .ideintr => some state.ideintr
  | .kill p => some (state.goto p (state.point p).woken)

end State

/-- Source `binit`. -/
def binit (ι : Type) : State ι where
  ring := (List.finRange nbuf).foldl LinkedRing.pushFront LinkedRing.empty
  buf := fun _ => ⟨false, false, false, noDev, 0⟩
  idequeue := []
  point := fun _ => .idle
  hand := fun _ => ∅

/-! ## The invariant -/

variable {ι : Type}

/-- The list leads to every buffer, no sector has two buffers, and the busy buffers
are those in the hands of one process. -/
structure Consistent (state : State ι) : Prop where
  linked : ∃ order, state.ring.Represents order ∧ ∀ b, b ∈ order
  unique : ∀ b other, (state.buf b).dev ≠ noDev → (state.buf b).dev = (state.buf other).dev →
    (state.buf b).sector = (state.buf other).sector → b = other
  busy : ∀ b, (state.buf b).busy = true ↔ ∃ p, b ∈ state.hand p
  single : ∀ b p q, b ∈ state.hand p → b ∈ state.hand q → p = q
  releasing : ∀ p b, state.point p = .brelse b → b ∈ state.hand p

/-- Nothing changes that the invariant depends on, apart from where the processes
are. -/
structure SameCache (state next : State ι) : Prop where
  ring : next.ring = state.ring
  hand : next.hand = state.hand
  dev : ∀ b, (next.buf b).dev = (state.buf b).dev
  sector : ∀ b, (next.buf b).sector = (state.buf b).sector
  busy : ∀ b, (next.buf b).busy = (state.buf b).busy

variable {b : BufPtr} {p : ι}

section

variable {state : State ι}

theorem SameCache.refl (state : State ι) : SameCache state state :=
  ⟨rfl, rfl, fun _ => rfl, fun _ => rfl, fun _ => rfl⟩

theorem SameCache.withQueue (state : State ι) (queue : List BufPtr) :
    SameCache state { state with idequeue := queue } :=
  ⟨rfl, rfl, fun _ => rfl, fun _ => rfl, fun _ => rfl⟩

theorem SameCache.trans {middle next : State ι} (first : SameCache state middle)
    (second : SameCache middle next) : SameCache state next where
  ring := second.ring.trans first.ring
  hand := second.hand.trans first.hand
  dev := fun b => (second.dev b).trans (first.dev b)
  sector := fun b => (second.sector b).trans (first.sector b)
  busy := fun b => (second.busy b).trans (first.busy b)

/-- A field that is stored as it was. -/
theorem field_setBuf {α : Type} (field : Buf → α) {buf : Buf} (eq : field buf = field (state.buf b))
    (other : BufPtr) :
    field ((state.setBuf b buf).buf other) = field (state.buf other) := by
  by_cases here : other = b
  · subst here
    simpa [State.setBuf] using eq
  · simp [State.setBuf, here]

/-- The flags `B_VALID` and `B_DIRTY` may change. -/
theorem SameCache.setBuf (state : State ι) {buf : Buf} (dev_eq : buf.dev = (state.buf b).dev)
    (sector_eq : buf.sector = (state.buf b).sector) (busy_eq : buf.busy = (state.buf b).busy) :
    SameCache state (state.setBuf b buf) :=
  ⟨rfl, rfl, field_setBuf Buf.dev dev_eq, field_setBuf Buf.sector sector_eq,
    field_setBuf Buf.busy busy_eq⟩

theorem woken_ne_brelse {point : Point} (releasing : point.woken = .brelse b) :
    point = .brelse b := by
  cases point <;> simp_all [Point.woken]

theorem point_wakeup {b chan : BufPtr} (releasing : (state.wakeup chan).point p = .brelse b) :
    state.point p = .brelse b := by
  simp only [State.wakeup] at releasing
  split at releasing
  · exact woken_ne_brelse releasing
  · exact releasing

variable [DecidableEq ι]

section

variable (state : State ι)

theorem point_goto (p other : ι) (point : Point) :
    (state.goto p point).point other = if other = p then point else state.point other :=
  update_apply ..

theorem mem_hand_take (p other : ι) (b found : BufPtr) (buf : Buf) :
    found ∈ (state.take p b buf).hand other ↔ found ∈ state.hand other ∨ other = p ∧ found = b := by
  simp only [State.take, State.goto, update_apply]
  split
  · rename_i same
    subst same
    rw [or_comm]
    simp
  · rename_i distinct
    simp [distinct]

theorem buf_take (p : ι) (b other : BufPtr) (buf : Buf) :
    (state.take p b buf).buf other = if other = b then buf else state.buf other :=
  update_apply ..

theorem buf_brelse (p : ι) (b other : BufPtr) :
    (state.brelse p b).buf other =
      if other = b then { state.buf b with busy := false } else state.buf other :=
  update_apply ..

end

variable (consistent : Consistent state)

include consistent

/-- `bget` takes a buffer that is not busy, for a sector that no other buffer
has. -/
theorem Consistent.take {buf : Buf} (free : (state.buf b).busy = false) (isBusy : buf.busy = true)
    (fresh : ∀ other, other ≠ b → buf.dev ≠ noDev → buf.dev = (state.buf other).dev → buf.sector ≠
      (state.buf other).sector) : Consistent (state.take p b buf) := by
  have inNoHand : ∀ q, b ∉ state.hand q := by
    intro q mem
    have isBusy := (consistent.busy b).mpr ⟨q, mem⟩
    rw [free] at isBusy
    contradiction
  refine ⟨consistent.linked, ?_, ?_, ?_, ?_⟩
  · intro first second
    rw [buf_take, buf_take]
    by_cases firstHere : first = b
    · by_cases secondHere : second = b
      · intro _ _ _
        exact firstHere.trans secondHere.symm
      · rw [if_pos firstHere, if_neg secondHere]
        intro valid sameDev sameSector
        exact absurd sameSector (fresh second secondHere valid sameDev)
    · by_cases secondHere : second = b
      · rw [if_neg firstHere, if_pos secondHere]
        intro valid sameDev sameSector
        exact absurd sameSector.symm (fresh first firstHere (sameDev ▸ valid) sameDev.symm)
      · rw [if_neg firstHere, if_neg secondHere]
        exact consistent.unique first second
  · intro other
    rw [buf_take]
    simp only [mem_hand_take]
    by_cases here : other = b
    · rw [if_pos here]
      exact iff_of_true isBusy ⟨p, .inr ⟨rfl, here⟩⟩
    · simp only [here, and_false, or_false]
      exact consistent.busy other
  · intro other first second
    simp only [mem_hand_take]
    rintro (firstMem | ⟨rfl, rfl⟩) (secondMem | ⟨rfl, secondHere⟩)
    · exact consistent.single other first second firstMem secondMem
    · exact absurd (secondHere ▸ firstMem) (inNoHand first)
    · exact absurd secondMem (inNoHand second)
    · rfl
  · intro other found atSection
    rw [mem_hand_take]
    rw [State.take, point_goto] at atSection
    split at atSection
    · contradiction
    · exact .inl (consistent.releasing other found atSection)

omit [DecidableEq ι] in
/-- Both loops of `bget` end and look at every buffer. -/
theorem Consistent.loops :
    ∃ order : List BufPtr, (∀ b, b ∈ order) ∧ ∀ found,
      LinkedRing.walk state.ring.next found (nbuf + 1) (state.ring.next none) =
        some (order.find? found) ∧
      LinkedRing.walk state.ring.prev found (nbuf + 1) (state.ring.prev none) =
        some (order.reverse.find? found) := by
  obtain ⟨order, represents, all⟩ := consistent.linked
  have length_le : order.length ≤ nbuf := by
    have := represents.2.length_le_card
    rwa [Fintype.card_fin] at this
  have enough : order.length < nbuf + 1 := Nat.lt_succ_of_le length_le
  exact ⟨order, all, fun found =>
    ⟨represents.walk_next found enough, represents.walk_prev found enough⟩⟩

omit [DecidableEq ι] in
theorem Consistent.cached (dev sector : BitVec 32) :
    (∃ b, state.cached dev sector = some (some b) ∧ (state.buf b).dev = dev ∧
      (state.buf b).sector = sector) ∨
    state.cached dev sector = some none ∧
      ∀ b, (state.buf b).dev = dev → (state.buf b).sector ≠ sector := by
  obtain ⟨order, all, loops⟩ := consistent.loops
  rw [State.cached, (loops _).1]
  cases search : order.find? fun b =>
      (state.buf b).dev == dev && (state.buf b).sector == sector with
  | some b =>
    have isFound := find?_some search
    rw [Bool.and_eq_true, beq_iff_eq, beq_iff_eq] at isFound
    exact .inl ⟨b, rfl, isFound⟩
  | none =>
    refine .inr ⟨rfl, ?_⟩
    intro b sameDev sameSector
    have notFound := List.find?_eq_none.mp search b (all b)
    simp [sameDev, sameSector] at notFound

omit [DecidableEq ι] in
theorem Consistent.recyclable :
    state.recyclable = some none ∨
      ∃ b, state.recyclable = some (some b) ∧ (state.buf b).busy = false ∧
        (state.buf b).dirty = false := by
  obtain ⟨order, -, loops⟩ := consistent.loops
  rw [State.recyclable, (loops _).2]
  cases search : order.reverse.find? fun b => !(state.buf b).busy && !(state.buf b).dirty with
  | none => exact .inl rfl
  | some b =>
    have isFound := find?_some search
    rw [Bool.and_eq_true, Bool.not_eq_true', Bool.not_eq_true'] at isFound
    exact .inr ⟨b, rfl, isFound⟩

/-- What the section of `bget` does: it goes to sleep, it takes the buffer of the
sector, or it recycles a clean one for a sector that no buffer has. -/
theorem Consistent.bget_cases {dev sector : BitVec 32} {next : State ι}
    (called : state.bget p dev sector = some next) :
    (∃ b, next = state.goto p (.bgetSleep b dev sector)) ∨
    (∃ b, (state.buf b).busy = false ∧
      next = state.take p b { state.buf b with busy := true }) ∨
    ∃ b, (state.buf b).busy = false ∧ (state.buf b).dirty = false ∧
      (∀ other, (state.buf other).dev = dev → (state.buf other).sector ≠ sector) ∧
      next = state.take p b ⟨true, false, false, dev, sector⟩ := by
  unfold State.bget at called
  rcases consistent.cached dev sector with ⟨b, cached, -⟩ | ⟨cached, absent⟩
  · simp only [cached, bind_eq_bind, bind_some] at called
    split at called
    · exact .inl ⟨b, (some.inj called).symm⟩
    · rename_i notBusy
      exact .inr (.inl ⟨b, Bool.eq_false_iff.mpr notBusy, (some.inj called).symm⟩)
  · rcases consistent.recyclable with none | ⟨b, recycled, free, clean⟩
    · simp only [cached, none, bind_eq_bind, bind_some] at called
      contradiction
    · simp only [cached, recycled, bind_eq_bind, bind_some] at called
      exact .inr (.inr ⟨b, free, clean, absent, (some.inj called).symm⟩)

/-- `brelse` moves a buffer to the front of the list and out of the hand. -/
theorem Consistent.brelse (inHand : b ∈ state.hand p) : Consistent (state.brelse p b) := by
  have mem_hand (q : ι) (other : BufPtr) : other ∈ (state.brelse p b).hand q ↔
      other ∈ state.hand q ∧ other ≠ b := by
    simp only [State.brelse, State.goto, State.wakeup, update_apply]
    split
    · rename_i same
      subst same
      rw [Finset.mem_erase, and_comm]
    · rename_i distinct
      refine (and_iff_left_of_imp ?_).symm
      rintro mem rfl
      exact distinct (consistent.single other q p mem inHand)
  refine ⟨?_, ?_, ?_, ?_, ?_⟩
  · obtain ⟨order, represents, all⟩ := consistent.linked
    obtain ⟨before, after, rfl⟩ := append_of_mem (all b)
    have notMem : b ∉ before ++ after := by
      intro mem
      have nodup := represents.2
      rw [nodup_middle, nodup_cons] at nodup
      exact nodup.1 mem
    refine ⟨b :: (before ++ after), represents.unlink.pushFront notMem, ?_⟩
    intro other
    have := all other
    simp only [mem_append, mem_cons] at this ⊢
    tauto
  · have kept {α : Type} (field : Buf → α)
        (eq : field { state.buf b with busy := false } = field (state.buf b)) (other : BufPtr) :
        field ((state.brelse p b).buf other) = field (state.buf other) :=
      field_setBuf field eq other
    intro first second
    rw [kept Buf.dev rfl, kept Buf.dev rfl, kept Buf.sector rfl, kept Buf.sector rfl]
    exact consistent.unique first second
  · intro other
    rw [buf_brelse]
    simp only [mem_hand]
    by_cases here : other = b
    · simp [here]
    · simp only [ne_eq, here, not_false_eq_true, and_true]
      exact consistent.busy other
  · intro other first second firstMem secondMem
    rw [mem_hand] at firstMem secondMem
    exact consistent.single other first second firstMem.1 secondMem.1
  · intro other found atSection
    rw [State.brelse, point_goto] at atSection
    split at atSection
    · contradiction
    rename_i distinct
    have mem := consistent.releasing other found (point_wakeup atSection)
    refine (mem_hand other found).mpr ⟨mem, ?_⟩
    rintro rfl
    exact distinct (consistent.single found other p mem inHand)

end

/-! ## What an event does -/

/-- Moves of processes and changes of `B_VALID` and `B_DIRTY`; a buffer taken for its
own sector; a clean buffer recycled for a sector that has none; a buffer
released. -/
inductive Effect [DecidableEq ι] (state : State ι) : State ι → Prop
  | same {next : State ι} (same : SameCache state next)
      (releasing : ∀ p b, next.point p = .brelse b →
        state.point p = .brelse b ∨ b ∈ state.hand p) : Effect state next
  | take (p : ι) {b : BufPtr} (free : (state.buf b).busy = false) :
      Effect state (state.take p b { state.buf b with busy := true })
  | recycle (p : ι) {b : BufPtr} {dev sector : BitVec 32} (free : (state.buf b).busy = false)
      (clean : (state.buf b).dirty = false)
      (absent : ∀ other, (state.buf other).dev = dev → (state.buf other).sector ≠ sector) :
      Effect state (state.take p b ⟨true, false, false, dev, sector⟩)
  | release {p : ι} {b : BufPtr} (inHand : b ∈ state.hand p) : Effect state (state.brelse p b)

section

variable [DecidableEq ι] {havedisk1 : Bool} {state next : State ι}

section

variable {middle : State ι} (same : SameCache state middle) (points : middle.point = state.point)
include same points

/-- A process may go anywhere but into the section of `brelse`. -/
theorem Effect.goto {point : Point} (notReleasing : ∀ b, point ≠ .brelse b) :
    Effect state (middle.goto p point) := by
  refine .same ⟨same.ring, same.hand, same.dev, same.sector, same.busy⟩ ?_
  intro other b atSection
  rw [point_goto] at atSection
  split at atSection
  · exact absurd atSection (notReleasing b)
  · rw [points] at atSection
    exact .inl atSection

theorem Effect.iderwWait (p : ι) (b : BufPtr) : Effect state (middle.iderwWait p b) := by
  refine .goto same points ?_
  intro found
  split
  · exact Point.noConfusion
  · exact Point.noConfusion

end

theorem Effect.ideintr (state : State ι) : Effect state state.ideintr := by
  unfold State.ideintr
  split
  · exact .same (.refl state) fun _ _ => .inl
  rename_i b rest _
  have flags : SameCache { state with idequeue := rest }
      (({ state with idequeue := rest } : State ι).setBuf b
        { state.buf b with valid := true, dirty := false }) := by
    apply SameCache.setBuf
    · rfl
    · rfl
    · rfl
  have same := (SameCache.withQueue state rest).trans flags
  exact .same ⟨same.ring, same.hand, same.dev, same.sector, same.busy⟩
    fun p found atSection => .inl (point_wakeup atSection)

/-- What a process that goes on does. -/
theorem Consistent.effect_run (consistent : Consistent state)
    (ran : State.run havedisk1 state p = some next) : Effect state next := by
  unfold State.run at ran
  split at ran
  case h_1 dev sector _ =>
    rcases consistent.bget_cases ran with
      ⟨b, rfl⟩ | ⟨b, free, rfl⟩ | ⟨b, free, clean, absent, rfl⟩
    · exact .goto (.refl state) rfl nofun
    · exact .take p free
    · exact .recycle p free clean absent
  case h_2 =>
    obtain rfl := some.inj ran
    refine .goto (.refl state) rfl ?_
    intro found
    split
    · exact Point.noConfusion
    · exact Point.noConfusion
  case h_3 b _ =>
    obtain ⟨-, stored⟩ := ite_none_right_eq_some.mp ran
    obtain rfl := some.inj stored
    refine .goto (.setBuf state ?_ ?_ ?_) rfl nofun
    · rfl
    · rfl
    · rfl
  case h_4 =>
    unfold State.iderw at ran
    simp only [ite_none_left_eq_some, some.injEq] at ran
    obtain ⟨-, -, -, rfl⟩ := ran
    exact .goto (.refl state) rfl nofun
  case h_5 b _ =>
    obtain rfl := some.inj ran
    exact .iderwWait (.withQueue state (state.idequeue ++ [b])) rfl p b
  case h_6 =>
    obtain rfl := some.inj ran
    exact .iderwWait (.refl state) rfl p _
  case h_7 b atSection =>
    obtain rfl := some.inj ran
    exact .release (consistent.releasing p b atSection)
  all_goals contradiction

/-- What any event does. -/
theorem Consistent.effect (consistent : Consistent state) {event : Event ι}
    (stepped : State.step havedisk1 state event = some next) : Effect state next := by
  cases event with
  | bread p dev sector =>
    obtain ⟨-, moved⟩ := ite_none_right_eq_some.mp stepped
    obtain rfl := some.inj moved
    exact .goto (.refl state) rfl nofun
  | bwrite p b =>
    obtain ⟨-, moved⟩ := ite_none_right_eq_some.mp stepped
    obtain rfl := some.inj moved
    exact .goto (.refl state) rfl nofun
  | logWrite p b =>
    obtain ⟨-, stored⟩ := ite_none_right_eq_some.mp stepped
    obtain rfl := some.inj stored
    refine .same (.setBuf state ?_ ?_ ?_) fun _ _ => .inl
    · rfl
    · rfl
    · rfl
  | brelse p b =>
    obtain ⟨⟨mayUse, -⟩, moved⟩ := ite_none_right_eq_some.mp stepped
    obtain rfl := some.inj moved
    refine .same ⟨rfl, rfl, fun _ => rfl, fun _ => rfl, fun _ => rfl⟩ ?_
    intro other found atSection
    rw [point_goto] at atSection
    split at atSection
    · rename_i same
      obtain rfl := Point.brelse.inj atSection
      exact .inr (same ▸ mayUse.2)
    · exact .inl atSection
  | run p => exact consistent.effect_run stepped
  | ideintr =>
    obtain rfl := some.inj stepped
    exact .ideintr state
  | kill p =>
    obtain rfl := some.inj stepped
    refine .same ⟨rfl, rfl, fun _ => rfl, fun _ => rfl, fun _ => rfl⟩ ?_
    intro other found atSection
    rw [point_goto] at atSection
    split at atSection
    · rename_i same
      exact .inl (same ▸ woken_ne_brelse atSection)
    · exact .inl atSection

/-- Every effect keeps the cache consistent. -/
theorem Effect.consistent (effect : Effect state next) (consistent : Consistent state) :
    Consistent next := by
  cases effect with
  | same same releasing =>
    refine ⟨?_, ?_, ?_, ?_, ?_⟩
    · rw [same.ring]
      exact consistent.linked
    · intro b other
      rw [same.dev, same.dev, same.sector, same.sector]
      exact consistent.unique b other
    · intro b
      rw [same.busy, same.hand]
      exact consistent.busy b
    · rw [same.hand]
      exact consistent.single
    · intro p b atSection
      rw [same.hand]
      exact (releasing p b atSection).elim (consistent.releasing p b) id
  | take p free =>
    refine consistent.take free rfl ?_
    intro other distinct valid sameDev sameSector
    exact distinct (consistent.unique _ other valid sameDev sameSector).symm
  | recycle p free _ absent =>
    refine consistent.take free rfl ?_
    intro other _ _ sameDev sameSector
    exact absent other sameDev.symm sameSector.symm
  | release inHand => exact consistent.brelse inHand

/-- No effect gives a dirty buffer another sector. -/
theorem Effect.sector_eq (effect : Effect state next) (dirty : (state.buf b).dirty = true) :
    (next.buf b).dev = (state.buf b).dev ∧ (next.buf b).sector = (state.buf b).sector := by
  cases effect with
  | same same _ => exact ⟨same.dev b, same.sector b⟩
  | take p free =>
    rw [buf_take]
    split
    · rename_i same
      rw [same]
      exact ⟨rfl, rfl⟩
    · exact ⟨rfl, rfl⟩
  | @recycle p recycled dev sector _ clean _ =>
    have distinct : b ≠ recycled := by
      rintro rfl
      rw [clean] at dirty
      contradiction
    rw [buf_take, if_neg distinct]
    exact ⟨rfl, rfl⟩
  | release _ =>
    rw [buf_brelse]
    split
    · rename_i same
      rw [same]
      exact ⟨rfl, rfl⟩
    · exact ⟨rfl, rfl⟩

end

/-! ## Runs -/

/-- `binit` links every buffer once. -/
theorem binit_consistent : Consistent (binit ι) where
  linked := by
    have linked (done rest : List BufPtr) (ring : LinkedRing BufPtr) (nodup : rest.Nodup)
        (disjoint : ∀ b ∈ rest, b ∉ done) (represents : ring.Represents done) :
        (rest.foldl LinkedRing.pushFront ring).Represents (rest.reverse ++ done) := by
      induction rest generalizing done ring with
      | nil => exact represents
      | cons b rest ih =>
        obtain ⟨notMem, nodup⟩ := nodup_cons.mp nodup
        rw [reverse_cons, append_assoc]
        refine ih (b :: done) _ nodup ?_ (represents.pushFront (disjoint b mem_cons_self))
        intro other mem inDone
        rcases mem_cons.mp inDone with rfl | inDone
        · exact notMem mem
        · exact disjoint other (mem_cons_of_mem b mem) inDone
    refine ⟨_, linked [] (List.finRange nbuf) _ (nodup_finRange nbuf) (fun _ _ => nofun)
      LinkedRing.empty_represents, ?_⟩
    simp
  unique := fun _ _ valid => absurd rfl valid
  busy := fun b => iff_of_false nofun fun ⟨_, mem⟩ => absurd mem (Finset.notMem_empty b)
  single := fun b _ _ mem => absurd mem (Finset.notMem_empty b)
  releasing := fun _ _ => nofun

/-- The states that the events lead to are consistent. -/
theorem Consistent.of_reached [DecidableEq ι] {havedisk1 : Bool} {state : State ι}
    (reached : Run.Reached (State.step havedisk1) (fun _ _ => True) (binit ι) state) :
    Consistent state :=
  reached.invariant (fun _ _ _ consistent _ stepped => (consistent.effect stepped).consistent
    consistent) binit_consistent

/-- Whatever the order of the steps of the processes and of the interrupts: the list
of buffers has every buffer once, in both directions; no two buffers with a device
have the same sector; every busy buffer is in the hands of exactly one process; and
no step gives a dirty buffer another sector. -/
theorem bcache_holds_sectors_once [DecidableEq ι] {havedisk1 : Bool} {state : State ι}
    (reached : Run.Reached (State.step havedisk1) (fun _ _ => True) (binit ι) state) :
    (∃ order, state.ring.Represents order ∧ ∀ b, order.count b = 1) ∧
    (∀ b other, (state.buf b).dev ≠ noDev → (state.buf b).dev = (state.buf other).dev →
      (state.buf b).sector = (state.buf other).sector → b = other) ∧
    (∀ b, (state.buf b).busy = true → ∃! p, b ∈ state.hand p) ∧
    ∀ event next b, State.step havedisk1 state event = some next → (state.buf b).dirty = true →
      (next.buf b).dev = (state.buf b).dev ∧ (next.buf b).sector = (state.buf b).sector := by
  have consistent := Consistent.of_reached reached
  refine ⟨?_, consistent.unique, ?_, ?_⟩
  · obtain ⟨order, represents, all⟩ := consistent.linked
    exact ⟨order, represents, fun b => count_eq_one_of_mem represents.2 (all b)⟩
  · intro b isBusy
    obtain ⟨p, mem⟩ := (consistent.busy b).mp isBusy
    exact ⟨p, mem, fun q memToo => consistent.single b q p memToo mem⟩
  · intro event next b stepped dirty
    exact (consistent.effect stepped).sector_eq dirty

theorem bcache_holds_sectors_once_two_reads :
    ∃ state, Run.run (State.step true) (binit Bool)
        [.bread false 1 7, .bread true 1 7, .run false, .run true] = some state ∧
      (state.buf 0).busy = true ∧ ∃! p, 0 ∈ state.hand p := by
  have busy : (Run.run (State.step true) (binit Bool)
      [.bread false 1 7, .bread true 1 7, .run false, .run true]).map
        (fun state => (state.buf 0).busy) = some true := by
    decide
  obtain ⟨state, ran, isBusy⟩ := map_eq_some_iff.mp busy
  have reached := Run.reached_of_run .start ran
  exact ⟨state, ran, isBusy, (bcache_holds_sectors_once reached).2.2.1 0 isBusy⟩

end XEditor.Kernel.Bcache
