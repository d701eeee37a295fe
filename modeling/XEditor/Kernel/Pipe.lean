import XEditor.Lib.CounterRing
import XEditor.Lib.Run

/-!
# Pipes

Source `pipe.c`: a pipe is a ring of `PIPESIZE` bytes with the free-running
counters `nread` and `nwrite`, shared by any number of `pipewrite` and
`piperead` calls under one lock.

Each call is a small machine.  Its steps are taking the lock, storing or
fetching one byte, waking sleepers, going to sleep and releasing the lock; the
steps of all calls interleave in any order that the lock allows.  Closing an end
of the pipe and killing a process are further steps.

The lists `stored`, `fetched` and `returned` record the bytes that went through;
no step reads them.
-/

namespace XEditor.Kernel

open Option Run

/-- `PIPESIZE`. -/
def pipesize : Nat :=
  512

instance : NeZero pipesize :=
  ⟨by decide⟩

/-- Source `struct pipe`. -/
structure Pipe where
  ring : CounterRing UInt8 pipesize 32
  readopen : Bool
  writeopen : Bool

/-- The arguments of a call: the buffer of `pipewrite`, or the length of
`piperead`. -/
inductive PipeCall where
  | write (addr : Nat → UInt8) (n : Int)
  | read (n : Int)

/-- Where a call is.  A `pipewrite` call has stored `i` bytes; a `piperead` call
has fetched the bytes `got`. -/
inductive PipePoint where
  | acquiring
  | storing (i : Nat)
  | wakingReaders (i : Nat)
  | fallingAsleep (i : Nat)
  | sleepingWriter (i : Nat)
  | wokenWriter (i : Nat)
  | stored (i : Nat)
  | testing
  | sleepingReader
  | wokenReader
  | fetching (got : List UInt8)
  | fetched (got : List UInt8)
  | returned (result : Int)

namespace PipePoint

/-- A sleeper on `&p->nread` becomes runnable. -/
def wakeReader : PipePoint → PipePoint
  | .sleepingReader => .wokenReader
  | point => point

/-- A sleeper on `&p->nwrite` becomes runnable. -/
def wakeWriter : PipePoint → PipePoint
  | .sleepingWriter i => .wokenWriter i
  | point => point

/-- The points between taking the lock and releasing it. -/
def locked : PipePoint → Bool
  | .storing _ | .wakingReaders _ | .fallingAsleep _ | .stored _ => true
  | .testing | .fetching _ | .fetched _ => true
  | _ => false

/-- The bytes that a call has fetched and not yet returned. -/
def got : PipePoint → List UInt8
  | .fetching got | .fetched got => got
  | _ => []

end PipePoint

/-- A call in progress, and whether its process has been killed. -/
structure PipeThread where
  call : PipeCall
  point : PipePoint
  killed : Bool

/-- The pipe, the holder of its lock, the calls, and the bytes that went
through. -/
structure PipeSystem where
  pipe : Pipe
  lock : Option Nat
  threads : Nat → Option PipeThread
  stored : List UInt8
  fetched : List UInt8
  returned : List UInt8

namespace PipeSystem

/-- Put a call in the table of calls. -/
def setThread (system : PipeSystem) (id : Nat) (thread : PipeThread) : PipeSystem :=
  { system with threads := Function.update system.threads id (some thread) }

/-- Move a call to another point. -/
def goto (system : PipeSystem) (id : Nat) (point : PipePoint) : PipeSystem :=
  match system.threads id with
  | none => system
  | some thread => system.setThread id { thread with point := point }

/-- Change the points of all calls. -/
def mapPoints (system : PipeSystem) (change : PipePoint → PipePoint) : PipeSystem :=
  { system with threads := fun other =>
      (system.threads other).map fun thread => { thread with point := change thread.point } }

/-- `wakeup` on `&p->nread`. -/
def wakeupReaders (system : PipeSystem) : PipeSystem :=
  system.mapPoints PipePoint.wakeReader

/-- `wakeup` on `&p->nwrite`. -/
def wakeupWriters (system : PipeSystem) : PipeSystem :=
  system.mapPoints PipePoint.wakeWriter

/-- Take the lock, when it is free. -/
def acquire (system : PipeSystem) (id : Nat) (point : PipePoint) : Option PipeSystem :=
  match system.lock with
  | none => some ({ system with lock := some id }.goto id point)
  | some _ => none

/-- Release the lock. -/
def release (system : PipeSystem) (id : Nat) (point : PipePoint) : PipeSystem :=
  { system with lock := none }.goto id point

/-- `p->data[p->nwrite++ % PIPESIZE] = addr[i]`. -/
def store (system : PipeSystem) (byte : UInt8) : PipeSystem :=
  { system with
    pipe := { system.pipe with ring := system.pipe.ring.push byte }
    stored := system.stored ++ [byte] }

/-- `addr[i] = p->data[p->nread++ % PIPESIZE]`. -/
def fetch (system : PipeSystem) : PipeSystem :=
  { system with
    pipe := { system.pipe with ring := system.pipe.ring.pop }
    fetched := system.fetched ++ [system.pipe.ring.front] }

/-- One step of source `pipewrite`. -/
def pipewrite (system : PipeSystem) (id : Nat) (addr : Nat → UInt8) (n : Int) (killed : Bool) :
    PipePoint → Option PipeSystem
  | .acquiring => system.acquire id (.storing 0)
  | .storing i =>
    if i < n then
      if system.pipe.ring.isFull then
        if system.pipe.readopen = false ∨ killed = true then
          some (system.release id (.returned (-1)))
        else some (system.goto id (.wakingReaders i))
      else some ((system.store (addr i)).goto id (.storing (i + 1)))
    else some (system.wakeupReaders.goto id (.stored i))
  | .wakingReaders i => some (system.wakeupReaders.goto id (.fallingAsleep i))
  | .fallingAsleep i => some (system.release id (.sleepingWriter i))
  | .wokenWriter i => system.acquire id (.storing i)
  | .stored _ => some (system.release id (.returned n))
  | _ => none

/-- One step of source `piperead`. -/
def piperead (system : PipeSystem) (id : Nat) (n : Int) (killed : Bool) :
    PipePoint → Option PipeSystem
  | .acquiring => system.acquire id .testing
  | .testing =>
    if system.pipe.ring.isEmpty = true ∧ system.pipe.writeopen = true then
      if killed = true then some (system.release id (.returned (-1)))
      else some (system.release id .sleepingReader)
    else some (system.goto id (.fetching []))
  | .wokenReader => system.acquire id .testing
  | .fetching got =>
    if got.length < n ∧ system.pipe.ring.isEmpty = false then
      some (system.fetch.goto id (.fetching (got ++ [system.pipe.ring.front])))
    else some (system.wakeupWriters.goto id (.fetched got))
  | .fetched got =>
    some ({ system with returned := system.returned ++ got }.release id (.returned got.length))
  | _ => none

/-- What can happen next: a call begins, a call takes a step, a process is
killed, or an end of the pipe is closed. -/
inductive Event where
  | begin (id : Nat) (call : PipeCall)
  | run (id : Nat)
  | kill (id : Nat)
  | close (writable : Bool)

/-- The state after an event, if the event can happen. -/
def step (system : PipeSystem) : Event → Option PipeSystem
  | .begin id call =>
    match system.threads id with
    | none => some (system.setThread id { call, point := .acquiring, killed := false })
    | some _ => none
  | .run id => do
    let thread ← system.threads id
    match thread.call with
    | .write addr n => system.pipewrite id addr n thread.killed thread.point
    | .read n => system.piperead id n thread.killed thread.point
  | .kill id => do
    let thread ← system.threads id
    some (system.setThread id { thread with
      killed := true
      point := thread.point.wakeReader.wakeWriter })
  | .close writable =>
    -- Source `pipeclose`; it holds the lock from its first to its last line.
    match system.lock with
    | some _ => none
    | none =>
      if writable then
        some { system.wakeupReaders with pipe := { system.pipe with writeopen := false } }
      else some { system.wakeupWriters with pipe := { system.pipe with readopen := false } }

/-- The pipe as `pipealloc` makes it.  The bytes of a fresh page are arbitrary. -/
def pipealloc (data : Vector UInt8 pipesize) : PipeSystem where
  pipe := {
    ring := { cells := data, nread := 0, nwrite := 0 }
    readopen := true
    writeopen := true }
  lock := none
  threads := fun _ => none
  stored := []
  fetched := []
  returned := []

/-! ## Nothing is lost -/

/-- The bytes fetched by the call that holds the lock and not yet returned. -/
def inFlight (system : PipeSystem) : List UInt8 :=
  ((system.lock.bind system.threads).map (·.point.got)).getD []

/-- Calls between taking and releasing the lock hold it, the ring holds what is
stored and not fetched, and what is fetched has been returned or is about to. -/
structure Lossless (system : PipeSystem) : Prop where
  locked : ∀ id thread, system.threads id = some thread → thread.point.locked = true →
    system.lock = some id
  held : ∃ pending, system.pipe.ring.Holds pending ∧ system.stored = system.fetched ++ pending
  handed : system.fetched = system.returned ++ system.inFlight

section

variable {system : PipeSystem} {id : Nat} {thread : PipeThread}

theorem inFlight_of_lock (holder : system.lock = some id)
    (found : system.threads id = some thread) :
    system.inFlight = thread.point.got := by
  simp [inFlight, holder, found]

theorem goto_eq (found : system.threads id = some thread) (point : PipePoint) :
    system.goto id point = system.setThread id { thread with point := point } := by
  rw [goto, found]

theorem setThread_self (system : PipeSystem) (id : Nat) (thread : PipeThread) :
    (system.setThread id thread).threads id = some thread :=
  Function.update_self ..

theorem setThread_ne {other : Nat} (apart : other ≠ id) (thread : PipeThread) :
    (system.setThread id thread).threads other = system.threads other :=
  Function.update_of_ne apart ..

/-- A call may move to a point with the same bytes in flight. -/
theorem Lossless.setThread (lossless : system.Lossless)
    (locked : thread.point.locked = true → system.lock = some id)
    (got : system.lock = some id → thread.point.got = system.inFlight) :
    (system.setThread id thread).Lossless where
  locked := by
    intro other moved found isLocked
    by_cases same : other = id
    · subst same
      rw [setThread_self] at found
      cases found
      exact locked isLocked
    · rw [setThread_ne same] at found
      exact lossless.locked other moved found isLocked
  held := lossless.held
  handed := by
    have unmoved : (system.setThread id thread).inFlight = system.inFlight := by
      by_cases holder : system.lock = some id
      · rw [← got holder]
        exact inFlight_of_lock holder (setThread_self ..)
      unfold inFlight
      cases lock : system.lock with
      | none => simp [PipeSystem.setThread, lock]
      | some other =>
        have apart : other ≠ id := by
          rintro rfl
          exact holder lock
        have kept : (system.setThread id thread).threads other = system.threads other :=
          setThread_ne apart thread
        have sameLock : (system.setThread id thread).lock = some other := lock
        rw [sameLock, bind_some, bind_some, kept]
    rw [unmoved]
    exact lossless.handed

variable {point : PipePoint} {next : PipeSystem}

theorem Lossless.goto (lossless : system.Lossless) (holder : system.lock = some id)
    (found : system.threads id = some thread) (got : point.got = thread.point.got) :
    (system.goto id point).Lossless := by
  rw [goto_eq found]
  refine lossless.setThread (fun _ => holder) fun _ => ?_
  rw [inFlight_of_lock holder found]
  exact got

variable {change : PipePoint → PipePoint}

/-- Waking sleepers moves no bytes. -/
theorem Lossless.mapPoints (lossless : system.Lossless)
    (sameLocked : ∀ point, (change point).locked = point.locked)
    (sameGot : ∀ point, (change point).got = point.got) :
    (system.mapPoints change).Lossless where
  locked := by
    intro id thread found isLocked
    obtain ⟨before, foundBefore, rfl⟩ := map_eq_some_iff.mp found
    rw [sameLocked] at isLocked
    exact lossless.locked id before foundBefore isLocked
  held := lossless.held
  handed := by
    have unmoved : (system.mapPoints change).inFlight = system.inFlight := by
      simp only [inFlight, PipeSystem.mapPoints]
      cases system.lock with
      | none => rfl
      | some id => cases found : system.threads id <;> simp [found, sameGot]
    rw [unmoved]
    exact lossless.handed

section

variable (point : PipePoint)

theorem wakeReader_locked : point.wakeReader.locked = point.locked := by
  cases point <;> rfl

theorem wakeReader_got : point.wakeReader.got = point.got := by
  cases point <;> rfl

theorem wakeWriter_locked : point.wakeWriter.locked = point.locked := by
  cases point <;> rfl

theorem wakeWriter_got : point.wakeWriter.got = point.got := by
  cases point <;> rfl

end

theorem Lossless.wakeupReaders (lossless : system.Lossless) : system.wakeupReaders.Lossless :=
  lossless.mapPoints wakeReader_locked wakeReader_got

theorem Lossless.wakeupWriters (lossless : system.Lossless) : system.wakeupWriters.Lossless :=
  lossless.mapPoints wakeWriter_locked wakeWriter_got

/-- Waking sleepers does not move a call that is not asleep. -/
theorem threads_wakeup (found : system.threads id = some thread) (change : PipePoint → PipePoint)
    (awake : change thread.point = thread.point) :
    (system.mapPoints change).threads id = some thread := by
  simp [PipeSystem.mapPoints, found, awake]

theorem pipesize_dvd : pipesize ∣ 2 ^ 32 := by
  decide

theorem pipesize_lt : pipesize < 2 ^ 32 := by
  decide

/-- A byte stored in a ring that is not full waits behind the others. -/
theorem Lossless.store (lossless : system.Lossless) (room : ¬ system.pipe.ring.isFull = true)
    (byte : UInt8) : (system.store byte).Lossless where
  locked := lossless.locked
  held := by
    obtain ⟨pending, holds, stored⟩ := lossless.held
    rw [holds.isFull_iff pipesize_lt] at room
    have below : pending.length < pipesize := Nat.lt_of_le_of_ne holds.fits room
    refine ⟨pending ++ [byte], holds.push pipesize_dvd below byte, ?_⟩
    rw [← List.append_assoc]
    exact congrArg (· ++ [byte]) stored
  handed := lossless.handed

section

variable (lossless : system.Lossless) (found : system.threads id = some thread)
include lossless found

theorem Lossless.acquire (got : point.got = [])
    (acquired : system.acquire id point = some next) : next.Lossless := by
  rw [PipeSystem.acquire] at acquired
  split at acquired
  · rename_i free
    have foundHolding : { system with lock := some id }.threads id = some thread := found
    rw [some.injEq, goto_eq foundHolding] at acquired
    subst acquired
    refine ⟨?_, lossless.held, ?_⟩
    · intro other moved foundMoved isLocked
      by_cases same : other = id
      · rw [same]
        rfl
      have foundBefore := (setThread_ne same _).symm.trans foundMoved
      have holder := lossless.locked other moved foundBefore isLocked
      rw [free] at holder
      cases holder
    · have handed := lossless.handed
      rw [inFlight, free] at handed
      rw [inFlight_of_lock (by rfl) (setThread_self ..), got]
      exact handed
  · cases acquired

/-- A call that releases the lock hands over what it has fetched. -/
theorem Lossless.release (holder : system.lock = some id) (free : point.locked = false) :
    ({ system with
      returned := system.returned ++ thread.point.got }.release id point).Lossless := by
  have foundReleased : { system with
      returned := system.returned ++ thread.point.got, lock := none }.threads id = some thread :=
    found
  rw [PipeSystem.release, goto_eq foundReleased]
  refine ⟨?_, lossless.held, ?_⟩
  · intro other moved foundMoved isLocked
    by_cases same : other = id
    · subst same
      rw [setThread_self] at foundMoved
      cases foundMoved
      rw [free] at isLocked
      cases isLocked
    · have foundBefore := (setThread_ne same _).symm.trans foundMoved
      have alsoHolder := lossless.locked other moved foundBefore isLocked
      rw [holder, some.injEq] at alsoHolder
      exact absurd alsoHolder.symm same
  · have handed := lossless.handed
    rw [inFlight_of_lock holder found] at handed
    exact handed.trans (List.append_nil _).symm

/-- A call without bytes releases the lock. -/
theorem Lossless.release_nil (holder : system.lock = some id) (nothing : thread.point.got = [])
    (free : point.locked = false) : (system.release id point).Lossless := by
  have released := lossless.release found holder free
  rwa [nothing, List.append_nil] at released

/-- The byte fetched is the one that has waited longest. -/
theorem Lossless.fetch (holder : system.lock = some id)
    (waiting : system.pipe.ring.isEmpty = false)
    (got : point.got = thread.point.got ++ [system.pipe.ring.front]) :
    (system.fetch.goto id point).Lossless := by
  have foundAfter : system.fetch.threads id = some thread := found
  rw [goto_eq foundAfter]
  obtain ⟨pending, holds, stored⟩ := lossless.held
  have handed := lossless.handed
  rw [inFlight_of_lock holder found] at handed
  cases pending with
  | nil =>
    rw [(holds.isEmpty_iff pipesize_lt).mpr rfl] at waiting
    cases waiting
  | cons oldest rest =>
    refine ⟨?_, ⟨rest, holds.pop, ?_⟩, ?_⟩
    · intro other moved foundMoved isLocked
      by_cases same : other = id
      · rw [same]
        exact holder
      · have foundBefore := (setThread_ne same _).symm.trans foundMoved
        exact lossless.locked other moved foundBefore isLocked
    · have oldest_eq := holds.front_eq
      simp [PipeSystem.setThread, PipeSystem.fetch, stored, oldest_eq]
    · rw [inFlight_of_lock (by exact holder) (setThread_self ..), got, ← List.append_assoc]
      exact congrArg (· ++ [system.pipe.ring.front]) handed

/-- A step of `pipewrite` loses nothing. -/
theorem Lossless.pipewrite {addr : Nat → UInt8} {n : Int} {killed : Bool}
    (stepped : system.pipewrite id addr n killed thread.point = some next) : next.Lossless := by
  obtain ⟨call, point⟩ := thread
  have holder := lossless.locked id _ found
  cases point with
  | acquiring | wokenWriter i => exact lossless.acquire found rfl stepped
  | storing i =>
    simp only [PipeSystem.pipewrite] at stepped
    split_ifs at stepped with more full closed
    · cases stepped
      exact lossless.release_nil found (holder rfl) rfl rfl
    · cases stepped
      exact lossless.goto (holder rfl) found rfl
    · cases stepped
      exact (lossless.store full (addr i)).goto (holder rfl) found rfl
    · cases stepped
      exact lossless.wakeupReaders.goto (holder rfl)
        (threads_wakeup found PipePoint.wakeReader rfl) rfl
  | wakingReaders i =>
    cases stepped
    exact lossless.wakeupReaders.goto (holder rfl)
      (threads_wakeup found PipePoint.wakeReader rfl) rfl
  | fallingAsleep i | stored i =>
    cases stepped
    exact lossless.release_nil found (holder rfl) rfl rfl
  | _ => cases stepped

/-- A step of `piperead` loses nothing. -/
theorem Lossless.piperead {n : Int} {killed : Bool}
    (stepped : system.piperead id n killed thread.point = some next) : next.Lossless := by
  obtain ⟨call, point⟩ := thread
  have holder := lossless.locked id _ found
  cases point with
  | acquiring | wokenReader => exact lossless.acquire found rfl stepped
  | testing =>
    simp only [PipeSystem.piperead] at stepped
    split_ifs at stepped with waits isKilled
    · cases stepped
      exact lossless.release_nil found (holder rfl) rfl rfl
    · cases stepped
      exact lossless.release_nil found (holder rfl) rfl rfl
    · cases stepped
      exact lossless.goto (holder rfl) found rfl
  | fetching got =>
    simp only [PipeSystem.piperead] at stepped
    split_ifs at stepped with more
    · cases stepped
      exact lossless.fetch found (holder rfl) more.2 rfl
    · cases stepped
      exact lossless.wakeupWriters.goto (holder rfl)
        (threads_wakeup found PipePoint.wakeWriter rfl) rfl
  | fetched got =>
    cases stepped
    exact lossless.release found (holder rfl) rfl
  | _ => cases stepped

end

theorem lossless_pipealloc (data : Vector UInt8 pipesize) : (pipealloc data).Lossless where
  locked := by
    intro id thread found
    cases found
  held := ⟨[], CounterRing.holds_nil _ rfl, rfl⟩
  handed := rfl

/-- No event loses a byte. -/
theorem Lossless.step (lossless : system.Lossless) {event : Event} {next : PipeSystem}
    (stepped : system.step event = some next) : next.Lossless := by
  cases event with
  | begin id call =>
    rw [PipeSystem.step] at stepped
    split at stepped
    · rename_i fresh
      cases stepped
      refine lossless.setThread (fun isLocked => Bool.noConfusion isLocked) fun holder => ?_
      simp [inFlight, holder, fresh, PipePoint.got]
    · cases stepped
  | run id =>
    obtain ⟨thread, found, stepped⟩ := bind_eq_some_iff.mp stepped
    cases call : thread.call with
    | write addr n =>
      rw [call] at stepped
      exact lossless.pipewrite found stepped
    | read n =>
      rw [call] at stepped
      exact lossless.piperead found stepped
  | kill id =>
    obtain ⟨thread, found, stepped⟩ := bind_eq_some_iff.mp stepped
    cases stepped
    refine lossless.setThread (fun isLocked => ?_) fun holder => ?_
    · rw [wakeWriter_locked, wakeReader_locked] at isLocked
      exact lossless.locked id thread found isLocked
    · rw [wakeWriter_got, wakeReader_got, inFlight_of_lock holder found]
  | close writable =>
    rw [PipeSystem.step] at stepped
    split at stepped
    · cases stepped
    split at stepped
    · have woken := lossless.wakeupReaders
      cases stepped
      exact ⟨woken.locked, woken.held, woken.handed⟩
    · have woken := lossless.wakeupWriters
      cases stepped
      exact ⟨woken.locked, woken.held, woken.handed⟩

end

/-- Whatever the schedule, the bytes returned by the reads are a prefix of the
bytes stored by the writes, and the bytes stored and not yet fetched are as many
as the counters say, at most `PIPESIZE`. -/
theorem pipe_is_lossless_fifo (data : Vector UInt8 pipesize) {system : PipeSystem}
    (reached : Reached PipeSystem.step (fun _ _ => True) (pipealloc data) system) :
    system.returned <+: system.stored ∧
      ∃ unread, system.stored = system.fetched ++ unread ∧
        unread.length = (system.pipe.ring.nwrite - system.pipe.ring.nread).toNat ∧
        unread.length ≤ pipesize := by
  have lossless : system.Lossless :=
    Reached.invariant (fun _ _ _ before _ stepped => before.step stepped)
      (lossless_pipealloc data) reached
  obtain ⟨unread, holds, stored⟩ := lossless.held
  refine ⟨?_, unread, stored, holds.length_eq pipesize_lt, holds.fits⟩
  rw [stored, lossless.handed, List.append_assoc]
  exact List.prefix_append _ _

/-- A write of two bytes, a read of one, and the schedule that serves them. -/
def writeThenRead : List Event :=
  [.begin 0 (.write (fun i => if i = 0 then 65 else 66) 2), .begin 1 (.read 1),
    .run 1, .run 1, .run 0, .run 0, .run 0, .run 0, .run 0, .run 1, .run 1, .run 1, .run 1, .run 1]

theorem pipe_delivers_first_byte :
    ∃ system, run PipeSystem.step (pipealloc (Vector.replicate pipesize 0)) writeThenRead =
        some system ∧ system.returned = [65] ∧ system.stored = [65, 66] ∧
      system.returned <+: system.stored := by
  obtain ⟨system, ran, returned, stored⟩ :
      ∃ system, run PipeSystem.step (pipealloc (Vector.replicate pipesize 0)) writeThenRead =
        some system ∧ system.returned = [65] ∧ system.stored = [65, 66] :=
    ⟨_, rfl, rfl, rfl⟩
  exact ⟨system, ran, returned, stored, (pipe_is_lossless_fifo _ (reached_of_run .start ran)).1⟩

end PipeSystem

end XEditor.Kernel
