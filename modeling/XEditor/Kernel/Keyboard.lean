import XEditor.Kernel.Mouse

/-!
# Keyboard and mouse interrupts on one controller

Source `kbd.c`, and what it shares with `mouse.c`: both interrupt handlers read
their byte from the data port of one i8042 controller.  The controller has an
output buffer; its status port says whether a byte is there (bit 0) and whether
the first one comes from the mouse (bit 5).  Each byte makes its device's
interrupt pending once, and pending interrupts are served in any order.
-/

namespace XEditor.Kernel

open List Option

/-! ## The keyboard decoder -/

/-- `KBS_DIB`. -/
def kbsDib : UInt8 := 0x01

/-- `SHIFT`. -/
def shiftBit : UInt8 := 0x01

/-- `CTL`. -/
def ctl : UInt8 := 0x02

/-- `ALT`. -/
def alt : UInt8 := 0x04

/-- `CAPSLOCK`. -/
def capslock : UInt8 := 0x08

/-- `NUMLOCK`. -/
def numlock : UInt8 := 0x10

/-- `SCROLLLOCK`. -/
def scrolllock : UInt8 := 0x20

/-- `E0ESC`. -/
def e0esc : UInt8 := 0x40

/-- Source `shiftcode`. -/
def shiftcode (data : UInt8) : UInt8 :=
  if data = 0x1D ∨ data = 0x9D then ctl
  else if data = 0x2A ∨ data = 0x36 then shiftBit
  else if data = 0x38 ∨ data = 0xB8 then alt
  else 0

/-- Source `togglecode`. -/
def togglecode (data : UInt8) : UInt8 :=
  if data = 0x3A then capslock
  else if data = 0x45 then numlock
  else if data = 0x46 then scrolllock
  else 0

/-- The entries of a key map for the arrow keys and their neighbours. -/
def specialKey (data : UInt8) : UInt8 :=
  if data = 0xC8 then 0xE2
  else if data = 0xD0 then 0xE3
  else if data = 0xC9 then 0xE6
  else if data = 0xD1 then 0xE7
  else if data = 0xCB then 0xE4
  else if data = 0xCD then 0xE5
  else if data = 0x97 then 0xE0
  else if data = 0xCF then 0xE1
  else if data = 0xD2 then 0xE8
  else if data = 0xD3 then 0xE9
  else 0

/-- A key map: the first rows, the keys of the number pad, and the rest. -/
def keyMap (rows : List UInt8) (kpEnter kpDiv data : UInt8) : UInt8 :=
  if data = 0x9C then kpEnter
  else if data = 0xB5 then kpDiv
  else rows.getD data.toNat (specialKey data)

/-- Source `normalmap`. -/
def normalmap : UInt8 → UInt8 :=
  keyMap
    [0, 0x1B, 49, 50, 51, 52, 53, 54,
      55, 56, 57, 48, 45, 61, 8, 9,
      113, 119, 101, 114, 116, 121, 117, 105,
      111, 112, 91, 93, 10, 0, 97, 115,
      100, 102, 103, 104, 106, 107, 108, 59,
      39, 96, 0, 92, 122, 120, 99, 118,
      98, 110, 109, 44, 46, 47, 0, 42,
      0, 32, 0, 0, 0, 0, 0, 0,
      0, 0, 0, 0, 0, 0, 0, 55,
      56, 57, 45, 52, 53, 54, 43, 49,
      50, 51, 48, 46, 0, 0, 0, 0]
    10 47

/-- Source `shiftmap`. -/
def shiftmap : UInt8 → UInt8 :=
  keyMap
    [0, 27, 33, 64, 35, 36, 37, 94,
      38, 42, 40, 41, 95, 43, 8, 9,
      81, 87, 69, 82, 84, 89, 85, 73,
      79, 80, 123, 125, 10, 0, 65, 83,
      68, 70, 71, 72, 74, 75, 76, 58,
      34, 126, 0, 124, 90, 88, 67, 86,
      66, 78, 77, 60, 62, 63, 0, 42,
      0, 32, 0, 0, 0, 0, 0, 0,
      0, 0, 0, 0, 0, 0, 0, 55,
      56, 57, 45, 52, 53, 54, 43, 49,
      50, 51, 48, 46, 0, 0, 0, 0]
    10 47

/-- Source `ctlmap`. -/
def ctlmap : UInt8 → UInt8 :=
  keyMap
    [0, 0, 0, 0, 0, 0, 0, 0,
      0, 0, 0, 0, 0, 0, 0, 0,
      17, 23, 5, 18, 20, 25, 21, 9,
      15, 16, 0, 0, 13, 0, 1, 19,
      4, 6, 7, 8, 10, 11, 12, 0,
      0, 0, 0, 28, 26, 24, 3, 22,
      2, 14, 13, 0, 0, 239, 0, 0]
    13 239

/-- Source `charcode`, indexed by the bits `CTL` and `SHIFT`. -/
def charcode (shift : UInt8) : UInt8 → UInt8 :=
  if shift &&& ctl ≠ 0 then ctlmap
  else if shift &&& shiftBit ≠ 0 then shiftmap
  else normalmap

/-- The letters change case under `CAPSLOCK`. -/
def swapCase (c : UInt8) : UInt8 :=
  if 97 ≤ c ∧ c ≤ 122 then c - 32
  else if 65 ≤ c ∧ c ≤ 90 then c + 32
  else c

/-- Source `kbdgetc`: the variable `shift` after the call and the result, given
the bytes at the ports 0x64 and 0x60. -/
def kbdgetc (shift st data : UInt8) : UInt8 × BitVec 32 :=
  if st &&& kbsDib = 0 then (shift, -1)
  else if data = 0xE0 then (shift ||| e0esc, 0)
  else if data &&& 0x80 ≠ 0 then
    -- A key is released.
    let data := if shift &&& e0esc ≠ 0 then data else data &&& 0x7F
    (shift &&& ~~~(shiftcode data ||| e0esc), 0)
  else
    let data := if shift &&& e0esc ≠ 0 then data ||| 0x80 else data
    let shift := shift &&& ~~~e0esc
    let shift := (shift ||| shiftcode data) ^^^ togglecode data
    let c := charcode shift data
    let c := if shift &&& capslock ≠ 0 then swapCase c else c
    (shift, BitVec.ofNat 32 c.toNat)

/-! ## The controller -/

/-- The two devices behind the controller. -/
inductive Source where
  | keyboard
  | mouse
  deriving DecidableEq, Repr

/-- What the handlers keep: the variable `shift` and the keyboard messages, the
variables of the mouse and its messages. -/
structure Devices where
  shift : UInt8
  kbdMsgs : List (BitVec 32)
  mouse : Mouse
  mouseMsgs : List MouseEvent

/-- The controller's output buffer, the pending interrupts and the handlers'
variables. -/
structure Input where
  buffer : List (Source × UInt8)
  pending : Source → Nat
  devices : Devices

/-- The status port. -/
def statusPort : List (Source × UInt8) → UInt8
  | [] => 0x00
  | (.keyboard, _) :: _ => 0x01
  | (.mouse, _) :: _ => 0x21

/-- The byte at the data port. -/
def dataPort (buffer : List (Source × UInt8)) : UInt8 :=
  (buffer.head?.map Prod.snd).getD 0

/-- Source `kbdintr`. -/
def kbdintr (devices : Devices) (st data : UInt8) : Devices :=
  let (shift, c) := kbdgetc devices.shift st data
  { devices with shift, kbdMsgs := devices.kbdMsgs ++ [c] }

/-- The handler that `trap` calls for an interrupt. -/
def handle (devices : Devices) (source : Source) (st data : UInt8) : Devices :=
  match source with
  | .keyboard => kbdintr devices st data
  | .mouse =>
    let (mouse, message) := mouseintr devices.mouse st data
    { devices with mouse, mouseMsgs := devices.mouseMsgs ++ message.toList }

/-- A device sends a byte, or a pending interrupt is served. -/
inductive InputEvent where
  | arrive (source : Source) (data : UInt8)
  | serve (source : Source)
  deriving DecidableEq, Repr

/-- The state after an event.  An interrupt that is not pending is not served.
A handler that reads the data port takes the first byte out of the buffer. -/
def Input.step (input : Input) : InputEvent → Input
  | .arrive source data =>
    { input with
      buffer := input.buffer ++ [(source, data)]
      pending := Function.update input.pending source (input.pending source + 1) }
  | .serve source =>
    if input.pending source = 0 then input
    else
      { buffer := input.buffer.tail
        pending := Function.update input.pending source (input.pending source - 1)
        devices :=
          handle input.devices source (statusPort input.buffer) (dataPort input.buffer) }

/-- The state at boot. -/
def Input.initial : Input where
  buffer := []
  pending := fun _ => 0
  devices := { shift := 0, kbdMsgs := [], mouse := .initial, mouseMsgs := [] }

/-- The state after a list of events. -/
def Input.after (events : List InputEvent) : Input :=
  events.foldl Input.step .initial

/-! ## Schedules -/

/-- An event without its byte. -/
inductive Slot where
  | arrive (source : Source)
  | serve (source : Source)
  deriving DecidableEq, Repr

/-- Forget the byte of an event. -/
def InputEvent.slot : InputEvent → Slot
  | .arrive source _ => .arrive source
  | .serve source => .serve source

/-- The bytes that a device sends in a list of events. -/
def bytesFrom (source : Source) (events : List InputEvent) : List UInt8 :=
  events.filterMap fun
    | .arrive sender data => if sender = source then some data else none
    | .serve _ => none

/-- Two states agree on what a device's handler keeps. -/
def Devices.Agree (source : Source) (first second : Devices) : Prop :=
  match source with
  | .keyboard => first.shift = second.shift ∧ first.kbdMsgs = second.kbdMsgs
  | .mouse => first.mouse = second.mouse ∧ first.mouseMsgs = second.mouseMsgs

/-- Under a schedule each handler's variables and messages depend only on the
bytes of its own device. -/
def KeptApart (schedule : List Slot) : Prop :=
  ∀ source first second, first.map InputEvent.slot = schedule →
    second.map InputEvent.slot = schedule → bytesFrom source first = bytesFrom source second →
      (Input.after first).devices.Agree source (Input.after second).devices

/-- The events of a schedule with the byte 0 throughout. -/
def Slot.blank : Slot → InputEvent
  | .arrive source => .arrive source 0
  | .serve source => .serve source

/-- Every interrupt is served while the first byte of the buffer is from its own
device. -/
def InOrder (schedule : List Slot) : Prop :=
  ∀ before source, before ++ [.serve source] <+: schedule →
    0 < (Input.after (before.map Slot.blank)).pending source →
      (Input.after (before.map Slot.blank)).buffer.head?.map Prod.fst = some source

/-! ## Interrupts served in order keep the devices apart -/

variable {source : Source}

namespace Devices.Agree

theorem refl (source : Source) (devices : Devices) : devices.Agree source devices := by
  cases source <;> exact ⟨rfl, rfl⟩

/-- A handler's variables and messages depend on its own byte. -/
theorem handle {first second : Devices} (agree : first.Agree source second) (st data : UInt8) :
    (Kernel.handle first source st data).Agree source (Kernel.handle second source st data) := by
  cases source with
  | keyboard =>
    obtain ⟨shift, msgs⟩ := agree
    simp [Kernel.handle, kbdintr, Devices.Agree, shift, msgs]
  | mouse =>
    obtain ⟨mouse, msgs⟩ := agree
    simp [Kernel.handle, Devices.Agree, mouse, msgs]

/-- The other handler does not touch them. -/
theorem handle_other {source other : Source} (apart : other ≠ source) {first second : Devices}
    (agree : first.Agree source second) (st data st' data' : UInt8) :
    (Kernel.handle first other st data).Agree source (Kernel.handle second other st' data') := by
  cases source <;> cases other <;> first | exact absurd rfl apart | exact agree

end Devices.Agree

/-- Two states have the same sources in their buffers and the same pending
interrupts. -/
structure SameLine (first second : Input) : Prop where
  sources : first.buffer.map Prod.fst = second.buffer.map Prod.fst
  pending : first.pending = second.pending

variable {first second : Input}

theorem SameLine.step (same : SameLine first second)
    {event event' : InputEvent} (slot : event.slot = event'.slot) :
    SameLine (first.step event) (second.step event') := by
  obtain ⟨sources, pending⟩ := same
  cases event with
  | arrive source data =>
    cases event' with
    | serve _ => cases slot
    | arrive source' data' =>
      cases slot
      exact ⟨by simp [Input.step, sources], by simp [Input.step, pending]⟩
  | serve source =>
    cases event' with
    | arrive _ _ => cases slot
    | serve source' =>
      cases slot
      simp only [Input.step, pending]
      split
      · exact ⟨sources, pending⟩
      · exact ⟨by simp [map_tail, sources], rfl⟩

/-- Two states that differ at most in what the other device sent. -/
structure Matched (source : Source) (first second : Input) : Prop extends
    SameLine first second where
  own : first.buffer.filter (·.1 = source) = second.buffer.filter (·.1 = source)
  agree : first.devices.Agree source second.devices

/-- Two events that differ at most in the byte of the other device. -/
def SameFor (source : Source) (first second : InputEvent) : Prop :=
  first.slot = second.slot ∧ (first.slot = .arrive source → first = second)

open InputEvent

theorem sameFor_of_bytesFrom {first second : List InputEvent}
    (slots : first.map slot = second.map slot)
    (bytes : bytesFrom source first = bytesFrom source second) :
    List.Forall₂ (SameFor source) first second := by
  induction first generalizing second with
  | nil =>
    rw [map_nil, eq_comm, map_eq_nil_iff] at slots
    subst slots
    exact .nil
  | cons event first ih =>
    cases second with
    | nil => cases slots
    | cons event' second =>
      rw [map_cons, map_cons, cons.injEq] at slots
      obtain ⟨slot, slots⟩ := slots
      cases event with
      | serve server =>
        cases event' with
        | arrive _ _ => cases slot
        | serve _ =>
          cases slot
          exact .cons ⟨rfl, fun _ => rfl⟩ (ih slots bytes)
      | arrive sender data =>
        cases event' with
        | serve _ => cases slot
        | arrive _ data' =>
          cases slot
          by_cases own : sender = source
          · subst own
            simp only [bytesFrom, filterMap_cons, if_true, cons.injEq] at bytes
            exact .cons ⟨rfl, fun _ => by rw [bytes.1]⟩ (ih slots bytes.2)
          · simp only [bytesFrom, filterMap_cons, if_neg own] at bytes
            refine .cons ⟨rfl, fun isOwn => ?_⟩ (ih slots bytes)
            cases isOwn
            exact absurd rfl own

theorem Matched.arrive (matched : Matched source first second)
    {sender : Source} {data data' : UInt8} (own : sender = source → data = data') :
    Matched source (first.step (.arrive sender data)) (second.step (.arrive sender data')) where
  toSameLine := matched.toSameLine.step rfl
  own := by
    by_cases isOwn : sender = source
    · simp [Input.step, matched.own, own isOwn]
    · simp [Input.step, matched.own, isOwn]
  agree := matched.agree

/-- A buffer whose first byte is known to come from a device. -/
theorem exists_cons_of_head {buffer : List (Source × UInt8)}
    (head : buffer.head?.map Prod.fst = some source) :
    ∃ data rest, buffer = (source, data) :: rest := by
  cases buffer with
  | nil => cases head
  | cons entry rest =>
    rw [head?_cons, map_some, some.injEq] at head
    exact ⟨entry.2, rest, by rw [← head]⟩

theorem statusPort_cons (source : Source) (data data' : UInt8)
    (rest rest' : List (Source × UInt8)) :
    statusPort ((source, data) :: rest) = statusPort ((source, data') :: rest') := by
  cases source <;> rfl

/-- A handler that finds a byte of its own device leaves the devices apart. -/
theorem Matched.serve (matched : Matched source first second) {server : Source}
    (inOrder : 0 < first.pending server → first.buffer.head?.map Prod.fst = some server) :
    Matched source (first.step (.serve server)) (second.step (.serve server)) := by
  have same : SameLine (first.step (.serve server)) (second.step (.serve server)) :=
    matched.toSameLine.step rfl
  rcases eq_or_ne (first.pending server) 0 with none | pending
  · rw [Input.step, if_pos none, Input.step, if_pos (matched.pending ▸ none)]
    exact matched
  have head := inOrder (Nat.pos_of_ne_zero pending)
  obtain ⟨data, rest, buffer⟩ := exists_cons_of_head head
  rw [← head?_map, matched.sources, head?_map] at head
  obtain ⟨data', rest', buffer'⟩ := exists_cons_of_head head
  have own := matched.own
  rw [buffer, buffer'] at own
  refine ⟨same, ?_, ?_⟩
  all_goals rw [Input.step, if_neg pending, Input.step,
    if_neg (matched.pending ▸ pending)]
  all_goals rw [buffer, buffer']
  · rw [filter_cons, filter_cons] at own
    split at own
    · exact (List.cons.inj own).2
    · exact own
  · by_cases isOwn : server = source
    · rw [filter_cons_of_pos (by simpa using isOwn),
        filter_cons_of_pos (by simpa using isOwn), cons.injEq, Prod.mk.injEq] at own
      obtain ⟨⟨-, rfl⟩, -⟩ := own
      rw [statusPort_cons server data data rest rest']
      subst isOwn
      exact matched.agree.handle _ _
    · exact matched.agree.handle_other isOwn ..

theorem Matched.step (matched : Matched source first second) {event event' : InputEvent}
    (same : SameFor source event event')
    (inOrder : ∀ server, event.slot = .serve server → 0 < first.pending server →
      first.buffer.head?.map Prod.fst = some server) :
    Matched source (first.step event) (second.step event') := by
  obtain ⟨slot, bytes⟩ := same
  cases event with
  | arrive sender data =>
    cases event' with
    | serve _ => cases slot
    | arrive _ data' =>
      cases slot
      refine matched.arrive fun isOwn => ?_
      cases bytes (by rw [isOwn]; rfl)
      rfl
  | serve server =>
    cases event' with
    | arrive _ _ => cases slot
    | serve _ =>
      cases slot
      exact matched.serve (inOrder server rfl)

theorem Matched.foldl {events events' : List InputEvent} {before : List Slot}
    (matched : Matched source first second)
    (line : SameLine (Input.after (before.map Slot.blank)) first)
    (same : List.Forall₂ (SameFor source) events events')
    (inOrder : InOrder (before ++ events.map slot)) :
    Matched source (events.foldl Input.step first) (events'.foldl Input.step second) := by
  induction same generalizing before first second with
  | nil => exact matched
  | @cons event event' events events' sameFor _ ih =>
    have split : before ++ (event :: events).map slot =
        before ++ [event.slot] ++ events.map slot := by simp
    rw [split] at inOrder
    refine ih (matched.step sameFor fun server isServe pending => ?_) ?_ inOrder
    · rw [← head?_map, ← line.sources, head?_map]
      rw [← line.pending] at pending
      refine inOrder before server ?_ pending
      rw [← isServe]
      exact prefix_append _ _
    · have stepped : Input.after ((before ++ [event.slot]).map Slot.blank) =
          (Input.after (before.map Slot.blank)).step event.slot.blank := by
        simp [Input.after]
      rw [stepped]
      refine line.step ?_
      cases event <;> rfl

theorem InOrder.keptApart {schedule : List Slot} (inOrder : InOrder schedule) :
    KeptApart schedule := by
  rintro source first second rfl slots bytes
  have same := sameFor_of_bytesFrom slots.symm bytes
  have initial : Matched source Input.initial Input.initial :=
    ⟨⟨rfl, rfl⟩, rfl, .refl _ _⟩
  have line : SameLine (Input.after (([] : List Slot).map Slot.blank)) Input.initial :=
    ⟨rfl, rfl⟩
  exact (initial.foldl line same inOrder).agree

/-! ## Any other order mixes them up -/

theorem Input.after_append_singleton (events : List InputEvent) (event : InputEvent) :
    Input.after (events ++ [event]) = (Input.after events).step event := by
  simp [Input.after]

/-- There is one pending interrupt per byte in the buffer. -/
theorem length_buffer (events : List InputEvent) :
    (Input.after events).buffer.length =
      (Input.after events).pending .keyboard + (Input.after events).pending .mouse := by
  induction events using List.reverseRecOn with
  | nil => rfl
  | append_singleton events event ih =>
    rw [Input.after_append_singleton]
    cases event with
    | arrive source data =>
      cases source <;> simp [Input.step, ih] <;> omega
    | serve source =>
      simp only [Input.step]
      split
      · exact ih
      · cases source <;> simp [ih] <;> omega

section

variable (buffer : List (Source × UInt8)) (k : Nat) (entry : Source × UInt8)

theorem statusPort_set_succ : statusPort (buffer.set (k + 1) entry) = statusPort buffer := by
  cases buffer with
  | nil => rfl
  | cons head rest => obtain ⟨source, data⟩ := head; cases source <;> rfl

theorem dataPort_set_succ : dataPort (buffer.set (k + 1) entry) = dataPort buffer := by
  cases buffer <;> rfl

end

theorem tail_set_succ {α : Type*} (list : List α) (k : Nat) (entry : α) :
    (list.set (k + 1) entry).tail = list.tail.set k entry := by
  cases list <;> rfl

/-- A byte that is still in the buffer may be replaced: nothing else changes. -/
theorem after_replace {events : List InputEvent} {k : Nat} {data : UInt8}
    (found : (Input.after events).buffer[k]? = some (source, data)) :
    ∃ before later, events = before ++ .arrive source data :: later ∧ ∀ data',
      Input.after (before ++ .arrive source data' :: later) =
        { Input.after events with
          buffer := (Input.after events).buffer.set k (source, data') } := by
  induction events using List.reverseRecOn generalizing k with
  | nil => cases found
  | append_singleton events event ih =>
    rw [Input.after_append_singleton] at found
    -- the byte was in the buffer before `event`, at place `k₀`
    have old (k₀ : Nat) (found : (Input.after events).buffer[k₀]? = some (source, data))
        (moved : ∀ data', Input.step { Input.after events with
            buffer := (Input.after events).buffer.set k₀ (source, data') } event =
          { (Input.after events).step event with
            buffer := ((Input.after events).step event).buffer.set k (source, data') }) :
        ∃ before later, events ++ [event] = before ++ .arrive source data :: later ∧ ∀ data',
          Input.after (before ++ .arrive source data' :: later) =
            { Input.after (events ++ [event]) with
              buffer := (Input.after (events ++ [event])).buffer.set k (source, data') } := by
      obtain ⟨before, later, split, replaced⟩ := ih found
      refine ⟨before, later ++ [event], by rw [split]; simp, fun data' => ?_⟩
      rw [← cons_append, ← append_assoc, Input.after_append_singleton,
        Input.after_append_singleton, replaced, moved]
    cases event with
    | arrive sender byte =>
      rcases Nat.lt_or_ge k (Input.after events).buffer.length with inside | atEnd
      · refine old k ?_ fun data' => ?_
        · rwa [Input.step, getElem?_append_left inside] at found
        · simp [Input.step, set_append_left _ _ inside]
      · rw [Input.step, getElem?_append_right atEnd, getElem?_singleton] at found
        obtain ⟨last, same⟩ := ite_none_right_eq_some.mp found
        cases same
        refine ⟨events, [], rfl, fun data' => ?_⟩
        rw [Input.after_append_singleton, Input.after_append_singleton]
        simp [Input.step, set_append_right _ _ atEnd, last]
    | serve server =>
      by_cases none : (Input.after events).pending server = 0
      · refine old k ?_ fun data' => ?_
        · rwa [Input.step, if_pos none] at found
        · rw [Input.step, if_pos none, Input.step, if_pos none]
      · refine old (k + 1) ?_ fun data' => ?_
        · rwa [Input.step, if_neg none, List.getElem?_tail] at found
        · rw [Input.step, if_neg none, Input.step, if_neg none, statusPort_set_succ,
            dataPort_set_succ, tail_set_succ]

/-- Nothing but zero bytes has been seen. -/
structure Quiet (input : Input) : Prop where
  bytes : ∀ entry ∈ input.buffer, entry.2 = 0
  shift : input.devices.shift = 0
  count : input.devices.mouse.count = 0

/-- Whatever the status port says, a zero byte leaves a quiet keyboard quiet. -/
theorem kbdgetc_zero (st : UInt8) : (kbdgetc 0 st 0).1 = 0 := by
  unfold kbdgetc
  split <;> rfl

/-- The same for the mouse. -/
theorem mouseintr_zero {mouse : Mouse} (ready : mouse.count = 0) (st : UInt8) :
    (mouseintr mouse st 0).1.count = 0 := by
  by_cases empty : st &&& 0x01 = 0
  · rw [mouseintr, if_pos empty]
  · rw [mouseintr_eq_receive empty, receive_skips ready (by decide)]
    exact ready

namespace Quiet

theorem dataPort_eq {input : Input} (quiet : Quiet input) : dataPort input.buffer = 0 := by
  have bytes := quiet.bytes
  cases buffer : input.buffer with
  | nil => rfl
  | cons entry rest => exact bytes entry (by simp [buffer])

theorem step {input : Input} (quiet : Quiet input) (slot : Slot) :
    Quiet (input.step slot.blank) := by
  obtain ⟨bytes, shift, count⟩ := id quiet
  cases slot with
  | arrive source =>
    refine ⟨fun entry isEntry => ?_, shift, count⟩
    rcases mem_append.mp isEntry with old | new
    · exact bytes entry old
    · rw [mem_singleton.mp new]
  | serve source =>
    simp only [Slot.blank, Input.step, quiet.dataPort_eq]
    split
    · exact quiet
    refine ⟨fun entry isEntry => bytes entry (mem_of_mem_tail isEntry), ?_, ?_⟩
    · cases source with
      | keyboard => simpa [handle, kbdintr, shift] using kbdgetc_zero _
      | mouse => exact shift
    · cases source with
      | keyboard => exact count
      | mouse => exact mouseintr_zero count _

theorem after_blank (schedule : List Slot) : Quiet (Input.after (schedule.map Slot.blank)) := by
  induction schedule using List.reverseRecOn with
  | nil => exact ⟨fun _ isEntry => (not_mem_nil isEntry).elim, rfl, rfl⟩
  | append_singleton schedule slot ih =>
    rw [map_append, map_singleton, Input.after_append_singleton]
    exact ih.step slot

end Quiet

/-- A byte that a quiet handler acts on. -/
def probe : Source → UInt8
  | .keyboard => 0x1E
  | .mouse => 0x08

/-- A handler takes the other device's byte for one of its own. -/
theorem not_agree_of_probe {source other : Source} (apart : other ≠ source) {devices : Devices}
    (shift : devices.shift = 0) (count : devices.mouse.count = 0)
    (rest : List (Source × UInt8)) :
    ¬ (handle devices source (statusPort ((other, 0) :: rest)) 0).Agree source
      (handle devices source (statusPort ((other, probe source) :: rest)) (probe source)) := by
  intro agree
  cases source with
  | keyboard =>
    cases other with
    | keyboard => exact apart rfl
    | mouse =>
      have msgs := agree.2
      simp only [handle, kbdintr, statusPort, probe, shift, append_cancel_left_eq] at msgs
      exact absurd msgs (by decide)
  | mouse =>
    cases other with
    | mouse => exact apart rfl
    | keyboard =>
      have counts := congrArg Mouse.count agree.1
      simp only [handle, statusPort, probe] at counts
      rw [mouseintr_zero count] at counts
      have one : (receive devices.mouse 0x08).1.count = 1 := by
        rw [receive_first count]
        rfl
      exact absurd (counts.trans one) (by decide)

theorem bytesFrom_replace {source other : Source} (apart : other ≠ source)
    (before later : List InputEvent) (data data' : UInt8) :
    bytesFrom source (before ++ .arrive other data :: later) =
      bytesFrom source (before ++ .arrive other data' :: later) := by
  simp [bytesFrom, filterMap_append, apart]

theorem slot_blank (schedule : List Slot) :
    (schedule.map Slot.blank).map slot = schedule := by
  rw [List.map_map]
  refine map_id'' (fun slot => ?_) schedule
  cases slot <;> rfl

/-- If every interrupt so far has been kept apart, the next one that is served
finds its own byte. -/
theorem KeptApart.head_eq {before : List Slot} (apart : KeptApart (before ++ [.serve source]))
    (pending : 0 < (Input.after (before.map Slot.blank)).pending source) :
    (Input.after (before.map Slot.blank)).buffer.head?.map Prod.fst = some source := by
  set blank := Input.after (before.map Slot.blank) with isBlank
  obtain ⟨bytes, shift, count⟩ := Quiet.after_blank before
  have length := length_buffer (before.map Slot.blank)
  rw [← isBlank] at bytes shift count length
  cases buffer : blank.buffer with
  | nil =>
    rw [buffer] at length
    cases source <;> simp at length <;> omega
  | cons entry rest =>
    obtain ⟨other, data⟩ := entry
    have zero : data = 0 := bytes (other, data) (by simp [buffer])
    subst zero
    by_contra notOwn
    have different : other ≠ source := by simpa using notOwn
    have found : blank.buffer[0]? = some (other, 0) := by simp [buffer]
    obtain ⟨front, later, events, replaced⟩ := after_replace found
    -- the run that differs in the first byte of the buffer only
    have agree := apart source (before.map Slot.blank ++ [.serve source])
      (front ++ .arrive other (probe source) :: later ++ [.serve source])
      (by rw [map_append, slot_blank]; rfl)
      (by
        rw [← slot_blank before, events]
        simp [slot])
      (by
        rw [events, append_assoc, append_assoc]
        exact bytesFrom_replace different _ _ _ _)
    have pending := Nat.ne_of_gt pending
    rw [Input.after_append_singleton, Input.after_append_singleton, replaced, ← isBlank,
      Input.step, if_neg pending, Input.step, if_neg pending] at agree
    rw [buffer] at agree
    exact not_agree_of_probe different shift count rest agree

/-- Source `kbdintr` and `mouseintr`: neither handler looks at the bit that says
whose byte it is.  At every point of a schedule the handlers depend on the bytes
of their own device only, if and only if each interrupt is served while the
first byte is its own. -/
theorem keptApart_iff_inOrder (schedule : List Slot) :
    (∀ before, before <+: schedule → KeptApart before) ↔ InOrder schedule := by
  constructor
  · intro apart before source isPrefix pending
    exact (apart _ isPrefix).head_eq pending
  · intro inOrder before isPrefix
    refine InOrder.keptApart fun earlier source isEarlier => ?_
    exact inOrder earlier source (isEarlier.trans isPrefix)

/-- The mouse sends a byte, the key A is pressed, and the keyboard is served
first.  Then A is pressed again. -/
def keyAfterMouse (data : UInt8) : List InputEvent :=
  [.arrive .mouse data, .arrive .keyboard 0x1E, .serve .keyboard, .serve .mouse,
    .arrive .keyboard 0x1E, .serve .keyboard]

/-- The keyboard takes the mouse byte 0x1D for a press of CTRL, and the second
A is a control character. -/
theorem mouse_byte_taken_for_ctl :
    (Input.after (keyAfterMouse 0x1D)).devices.kbdMsgs = [0, 1] ∧
      (Input.after (keyAfterMouse 0x00)).devices.kbdMsgs = [0, 97] ∧
      ¬ KeptApart ((keyAfterMouse 0x00).map InputEvent.slot) := by
  have first : (Input.after (keyAfterMouse 0x1D)).devices.kbdMsgs = [0, 1] := by decide
  have second : (Input.after (keyAfterMouse 0x00)).devices.kbdMsgs = [0, 97] := by decide
  refine ⟨first, second, fun apart => ?_⟩
  have agree := (apart .keyboard (keyAfterMouse 0x1D) (keyAfterMouse 0x00) rfl rfl rfl).2
  exact absurd (first.symm.trans (agree.trans second)) (by decide)

end XEditor.Kernel
