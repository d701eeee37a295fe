import XEditor.Kernel.Message
import XEditor.Lib.Run

/-!
# The mouse interrupt

Source `mouse.c`: each interrupt reads one byte; three bytes are a packet.  The
decoder is a state machine over the counter `count` and a few static
variables.  Drawing the mouse pointer is left out: it reads the position and
changes nothing the decoder reads.

Above the decoder stands a machine that takes whole packets.  The decoder
refines it as long as no byte of a rejected packet can start a packet.
-/

variable {mouse : Mouse} {packet : Packet}

namespace XEditor.Kernel

open List Option Run

/-- The static variables of `mouse.c`. -/
structure Mouse where
  count : Nat
  xOverflow : Bool
  yOverflow : Bool
  xSign : Bool
  ySign : Bool
  btnLeft : Bool
  btnRight : Bool
  btnMid : Bool
  btnLeftDown : Bool
  btnRightDown : Bool
  xDelta : Int
  yDelta : Int
  xPos : Int
  yPos : Int
  deriving DecidableEq, Repr

/-- The variables at boot. -/
def Mouse.initial : Mouse where
  count := 0
  xOverflow := false
  yOverflow := false
  xSign := false
  ySign := false
  btnLeft := false
  btnRight := false
  btnMid := false
  btnLeftDown := false
  btnRightDown := false
  xDelta := 0
  yDelta := 0
  xPos := 400
  yPos := 300

/-- The arguments of a call to `add_mouse_msg`. -/
structure MouseEvent where
  mouseOpt : MsgType
  x : Int
  y : Int
  deriving DecidableEq, Repr

/-- The expression `!!(data & mask)`. -/
def bitSet (data mask : UInt8) : Bool :=
  data &&& mask != 0

/-- The expression `data - sign * 256`, computed unsigned and stored in an
`int`. -/
def signedDelta (data : UInt8) (sign : Bool) : Int :=
  (BitVec.ofNat 32 data.toNat - BitVec.ofNat 32 (sign.toNat * 256)).toInt

/-- The macro `abs`. -/
def absInt (x : Int) : Int :=
  if x > -x then x else -x

/-- The macro `CHECK_IN_RANGE`. -/
def checkInRange (v min max : Int) : Int :=
  let v := if v < min then min else v
  if v ≥ max then max - 1 else v

/-- The test of a first byte. -/
def startsPacket (data : UInt8) : Bool :=
  bitSet data 0x08 && !bitSet data 0x04

/-- Case 1 of the switch. -/
def firstByte (mouse : Mouse) (data : UInt8) : Mouse :=
  if startsPacket data then
    { mouse with
      btnLeft := bitSet data 0x01
      btnRight := bitSet data 0x02
      btnMid := bitSet data 0x04
      xSign := bitSet data 0x10
      ySign := bitSet data 0x20
      xOverflow := bitSet data 0x40
      yOverflow := bitSet data 0x80 }
  else { mouse with count := 0 }

/-- The message type of a complete packet: the first button that changed. -/
def packetOpt (left right leftDown rightDown : Bool) : MsgType :=
  if left && !leftDown then .mouseLeftPress
  else if !left && leftDown then .mouseLeftRelease
  else if right && !rightDown then .mouseRightPress
  else if !right && rightDown then .mouseRightRelease
  else .mouseMove

/-- Case 3 of the switch. -/
def thirdByte (mouse : Mouse) (data : UInt8) : Mouse × Option MouseEvent :=
  let mouse := { mouse with yDelta := signedDelta data mouse.ySign, count := 0 }
  if absInt mouse.xDelta > 100 ∨ absInt mouse.yDelta > 100 then (mouse, none)
  else
    let x := checkInRange (mouse.xPos + mouse.xDelta) 0 800
    let y := checkInRange (mouse.yPos - mouse.yDelta) 0 600
    ({ mouse with
        xPos := x
        yPos := y
        btnLeftDown := mouse.btnLeft
        btnRightDown := mouse.btnRight },
      some
        { mouseOpt :=
            packetOpt mouse.btnLeft mouse.btnRight mouse.btnLeftDown mouse.btnRightDown
          x := x
          y := y })

/-- Source `mouseintr`: the variables after the interrupt, and the message it
adds, given the bytes at the ports 0x64 and 0x60. -/
def mouseintr (mouse : Mouse) (st data : UInt8) : Mouse × Option MouseEvent :=
  if st &&& 0x01 = 0 then ({ mouse with count := 0 }, none)
  else
    let mouse := { mouse with count := mouse.count + 1 }
    match mouse.count with
    | 1 => (firstByte mouse data, none)
    | 2 => ({ mouse with xDelta := signedDelta data mouse.xSign }, none)
    | 3 => thirdByte mouse data
    | _ => ({ mouse with count := 0 }, none)

/-- An interrupt with a byte to read. -/
def receive (mouse : Mouse) (data : UInt8) : Mouse × Option MouseEvent :=
  mouseintr mouse 0x01 data

/-- Only the lowest status bit is looked at. -/
theorem mouseintr_eq_receive {st : UInt8} (full : st &&& 0x01 ≠ 0) (mouse : Mouse)
    (data : UInt8) : mouseintr mouse st data = receive mouse data := by
  rw [receive, mouseintr, mouseintr, if_neg full, if_neg (by decide)]

/-! ## Packets -/

/-- A PS/2 packet: bit 3 of the first byte is set. -/
structure Packet where
  first : UInt8
  second : UInt8
  third : UInt8
  wellFormed : bitSet first 0x08 = true

namespace Packet

/-- The bytes in the order they arrive. -/
def bytes (packet : Packet) : List UInt8 :=
  [packet.first, packet.second, packet.third]

/-- The left button is down. -/
def left (packet : Packet) : Bool :=
  bitSet packet.first 0x01

/-- The right button is down. -/
def right (packet : Packet) : Bool :=
  bitSet packet.first 0x02

/-- The middle button is down. -/
def middle (packet : Packet) : Bool :=
  bitSet packet.first 0x04

/-- The movement to the right, a 9-bit number with its sign in the first
byte. -/
def dx (packet : Packet) : Int :=
  packet.second.toNat - if bitSet packet.first 0x10 then 256 else 0

/-- The movement upwards. -/
def dy (packet : Packet) : Int :=
  packet.third.toNat - if bitSet packet.first 0x20 then 256 else 0

/-- The packet is not rejected: no middle button, no movement above 100. -/
def accepted (packet : Packet) : Bool :=
  !packet.middle && decide (packet.dx.natAbs ≤ 100) && decide (packet.dy.natAbs ≤ 100)

/-- No later byte of a packet with the middle button could start a packet. -/
def KeepsFrame (packet : Packet) : Prop :=
  packet.middle = true → startsPacket packet.second = false ∧ startsPacket packet.third = false

end Packet

/-- The mouse as its packets describe it: position and buttons. -/
structure Pointer where
  x : Int
  y : Int
  left : Bool
  right : Bool
  deriving DecidableEq, Repr

/-- What the variables say about position and buttons. -/
def Mouse.pointer (mouse : Mouse) : Pointer :=
  ⟨mouse.xPos, mouse.yPos, mouse.btnLeftDown, mouse.btnRightDown⟩

/-- Take a whole packet: a rejected one has no effect. -/
def Pointer.take (pointer : Pointer) (packet : Packet) : Pointer × Option MouseEvent :=
  if packet.accepted then
    let x := checkInRange (pointer.x + packet.dx) 0 800
    let y := checkInRange (pointer.y - packet.dy) 0 600
    (⟨x, y, packet.left, packet.right⟩,
      some ⟨packetOpt packet.left packet.right pointer.left pointer.right, x, y⟩)
  else (pointer, none)

/-! ## Single bytes -/

theorem signedDelta_eq (data : UInt8) (sign : Bool) :
    signedDelta data sign = data.toNat - if sign then 256 else 0 := by
  have bound := data.toNat_lt
  simp only [signedDelta, BitVec.toInt_eq_toNat_bmod, BitVec.toNat_sub, BitVec.toNat_ofNat]
  cases sign with
  | false =>
    simp only [Int.bmod_def, Bool.toNat_false, Bool.false_eq_true, if_false]
    omega
  | true =>
    simp only [Int.bmod_def, Bool.toNat_true, if_true]
    omega

theorem absInt_eq (x : Int) : absInt x = x.natAbs := by
  unfold absInt
  split <;> omega

theorem receive_first (ready : mouse.count = 0) (data : UInt8) :
    receive mouse data = (firstByte { mouse with count := 1 } data, none) := by
  simp [receive, mouseintr, ready]

theorem receive_second (one : mouse.count = 1) (data : UInt8) :
    receive mouse data =
      ({ mouse with count := 2, xDelta := signedDelta data mouse.xSign }, none) := by
  simp [receive, mouseintr, one]

theorem receive_third (two : mouse.count = 2) (data : UInt8) :
    receive mouse data = thirdByte { mouse with count := 3 } data := by
  simp [receive, mouseintr, two]

theorem firstByte_count (data : UInt8) :
    (firstByte mouse data).count = if startsPacket data then mouse.count else 0 := by
  unfold firstByte
  split <;> rfl

/-- A byte that cannot start a packet is skipped. -/
theorem receive_skips (ready : mouse.count = 0) {data : UInt8}
    (skipped : startsPacket data = false) :
    receive mouse data = (mouse, none) := by
  rw [receive_first ready, firstByte, if_neg (by simp [skipped])]
  simp [← ready]

/-- The third byte of a packet completes it. -/
theorem thirdByte_eq_take (mouse : Mouse) (packet : Packet) (noMiddle : packet.middle = false)
    (left : mouse.btnLeft = packet.left) (right : mouse.btnRight = packet.right)
    (delta : mouse.xDelta = packet.dx) (sign : mouse.ySign = bitSet packet.first 0x20) :
    (thirdByte mouse packet.third).1.count = 0 ∧
      (thirdByte mouse packet.third).1.pointer = (mouse.pointer.take packet).1 ∧
      (thirdByte mouse packet.third).2 = (mouse.pointer.take packet).2 := by
  have delta' : signedDelta packet.third mouse.ySign = packet.dy := by
    rw [signedDelta_eq, sign, Packet.dy]
  have accepted : packet.accepted = true ↔
      ¬ (absInt packet.dx > 100 ∨ absInt packet.dy > 100) := by
    rw [absInt_eq, absInt_eq]
    simp only [Packet.accepted, noMiddle, Bool.not_false, Bool.true_and, Bool.and_eq_true,
      decide_eq_true_eq]
    omega
  simp only [thirdByte, delta', delta]
  by_cases large : absInt packet.dx > 100 ∨ absInt packet.dy > 100
  · rw [if_pos large, Pointer.take, if_neg (fun taken => accepted.mp taken large)]
    exact ⟨rfl, rfl, rfl⟩
  · rw [if_neg large, Pointer.take, if_pos (accepted.mpr large), left, right]
    exact ⟨rfl, rfl, rfl⟩

/-! ## Whole packets -/

/-- The decoder waits for a first byte and agrees with a pointer. -/
structure Between (mouse : Mouse) (pointer : Pointer) : Prop where
  ready : mouse.count = 0
  same : mouse.pointer = pointer

/-- The variables when the first two bytes of a packet have been read. -/
def Mouse.loaded (mouse : Mouse) (packet : Packet) : Mouse :=
  { mouse with
    count := 2
    btnLeft := packet.left
    btnRight := packet.right
    btnMid := packet.middle
    xSign := bitSet packet.first 0x10
    ySign := bitSet packet.first 0x20
    xOverflow := bitSet packet.first 0x40
    yOverflow := bitSet packet.first 0x80
    xDelta := packet.dx }

theorem Packet.startsPacket_first (noMiddle : packet.middle = false) :
    startsPacket packet.first = true := by
  rw [startsPacket, packet.wellFormed]
  simpa [Packet.middle] using noMiddle

section

variable (ready : mouse.count = 0)
include ready

theorem trace_two_bytes (noMiddle : packet.middle = false) :
    trace receive mouse [packet.first, packet.second] = (mouse.loaded packet, []) := by
  have first := receive_first ready packet.first
  rw [firstByte, if_pos (packet.startsPacket_first noMiddle)] at first
  simp only [trace, first]
  rw [receive_second rfl, signedDelta_eq]
  rfl

/-- The three bytes of a packet without the middle button are taken as one
packet. -/
theorem trace_packet (noMiddle : packet.middle = false) :
    Between (trace receive mouse packet.bytes).1 (mouse.pointer.take packet).1 ∧
      (trace receive mouse packet.bytes).2 = (mouse.pointer.take packet).2.toList := by
  have split : packet.bytes = [packet.first, packet.second] ++ [packet.third] := rfl
  have third : receive (mouse.loaded packet) packet.third =
      thirdByte { mouse.loaded packet with count := 3 } packet.third :=
    receive_third rfl packet.third
  obtain ⟨count, pointer, event⟩ :=
    thirdByte_eq_take { mouse.loaded packet with count := 3 } packet noMiddle rfl rfl rfl rfl
  rw [split, trace_concat, trace_two_bytes ready noMiddle, third]
  exact ⟨⟨count, pointer⟩, by rw [event]; rfl⟩

/-- A packet with the middle button is skipped if neither of its later bytes
can start a packet. -/
theorem trace_middle_packet (middle : packet.middle = true)
    (second : startsPacket packet.second = false) (third : startsPacket packet.third = false) :
    trace receive mouse packet.bytes = (mouse, []) := by
  have first : startsPacket packet.first = false := by
    rw [Packet.middle] at middle
    simp [startsPacket, middle]
  simp [Packet.bytes, trace, receive_skips ready, first, second, third]

/-- If a later byte of a packet with the middle button can start a packet, the
decoder is inside a packet when the packet ends. -/
theorem trace_middle_packet_breaks (middle : packet.middle = true)
    (starts : startsPacket packet.second = true ∨ startsPacket packet.third = true) :
    (trace receive mouse packet.bytes).1.count ≠ 0 := by
  have first : startsPacket packet.first = false := by
    rw [Packet.middle] at middle
    simp [startsPacket, middle]
  simp only [Packet.bytes, trace, receive_skips ready first]
  cases second : startsPacket packet.second with
  | true =>
    have one : (receive mouse packet.second).1.count = 1 := by
      rw [receive_first ready, firstByte_count, if_pos second]
    rw [receive_second one]
    exact Nat.succ_ne_zero 1
  | false =>
    have third : startsPacket packet.third = true := by simpa [second] using starts
    rw [receive_skips ready second, receive_first ready, firstByte_count, if_pos third]
    exact Nat.succ_ne_zero 0

end

/-- A packet that keeps the frame is taken as one packet. -/
theorem trace_keepsFrame (mouse : Mouse) (pointer : Pointer) (packet : Packet)
    (between : Between mouse pointer) (keeps : packet.KeepsFrame) :
    Between (trace receive mouse packet.bytes).1 (pointer.take packet).1 ∧
      (trace receive mouse packet.bytes).2 = (pointer.take packet).2.toList := by
  rw [← between.same]
  cases middle : packet.middle with
  | false => exact trace_packet between.ready middle
  | true =>
    have rejected : packet.accepted = false := by simp [Packet.accepted, middle]
    obtain ⟨second, third⟩ := keeps middle
    rw [trace_middle_packet between.ready middle second third, Pointer.take, rejected]
    exact ⟨⟨between.ready, rfl⟩, rfl⟩

/-- The bytes of a stream of packets. -/
def streamBytes (packets : List Packet) : List UInt8 :=
  packets.flatMap Packet.bytes

/-- A stream of packets that keep the frame is decoded packet by packet. -/
theorem trace_stream {pointer : Pointer} (between : Between mouse pointer) {packets : List Packet}
    (keep : ∀ packet ∈ packets, packet.KeepsFrame) :
    Between (trace receive mouse (streamBytes packets)).1
        (trace Pointer.take pointer packets).1 ∧
      (trace receive mouse (streamBytes packets)).2 =
        (trace Pointer.take pointer packets).2 :=
  trace_refines trace_keepsFrame between keep

/-- A stream of packets is decoded packet by packet, so that at each packet's
end the decoder waits for a first byte and agrees with the machine that takes
whole packets, if and only if every packet with the middle button has two later
bytes that cannot start a packet. -/
theorem packets_decoded_one_by_one_iff (mouse : Mouse) (ready : mouse.count = 0)
    (packets : List Packet) :
    (∀ before, before <+: packets →
      Between (trace receive mouse (streamBytes before)).1
          (trace Pointer.take mouse.pointer before).1 ∧
        (trace receive mouse (streamBytes before)).2 =
          (trace Pointer.take mouse.pointer before).2) ↔
      ∀ packet ∈ packets, packet.KeepsFrame := by
  constructor
  · intro framed packet member
    obtain ⟨before, after, split⟩ := append_of_mem member
    have readyBefore := (framed before ⟨_, split.symm⟩).1.ready
    have readyAfter := (framed (before ++ [packet]) ⟨after, by rw [split]; simp⟩).1.ready
    rw [streamBytes, flatMap_append, trace_append] at readyAfter
    intro middle
    by_contra starts
    refine trace_middle_packet_breaks readyBefore middle ?_ readyAfter
    by_contra neither
    simp only [not_or, Bool.not_eq_true] at neither
    exact starts neither
  · intro keep before isPrefix
    apply trace_stream ⟨ready, rfl⟩
    intro packet member
    exact keep packet (isPrefix.subset member)

/-- The packet of a click with the middle button, moved by (0, 4). -/
def middleClick : Packet where
  first := 0x0c
  second := 0x00
  third := 0x04
  wellFormed := by decide

/-- The same click, moved by (8, 0). -/
def middleClickMoved : Packet where
  first := 0x0c
  second := 0x08
  third := 0x00
  wellFormed := by decide

/-- The packet of a click with the left button. -/
def leftClick : Packet where
  first := 0x09
  second := 0x00
  third := 0x00
  wellFormed := by decide

theorem left_click_after_middle_click :
    (trace receive .initial (streamBytes [middleClick, leftClick])).2 =
      [⟨.mouseLeftPress, 400, 300⟩] := by
  have decoded := ((packets_decoded_one_by_one_iff .initial rfl [middleClick, leftClick]).mpr
    ?_ _ (prefix_refl _)).2
  · decide
  intro packet member
  simp only [mem_cons, not_mem_nil, or_false] at member
  rcases member with rfl | rfl
  · exact fun _ => ⟨by decide, by decide⟩
  · exact fun middle => absurd middle (by decide)

/-- After a middle click that moved by 8 the decoder takes the first byte of the
left click for a vertical movement, and the click is lost. -/
theorem left_click_lost_after_middle_click :
    (trace receive .initial (streamBytes [middleClickMoved])).1.count = 2 ∧
      (trace receive .initial (streamBytes [middleClickMoved, leftClick])).2 =
        [⟨.mouseMove, 400, 291⟩] ∧
      (trace Pointer.take Mouse.initial.pointer [middleClickMoved, leftClick]).2 =
        [⟨.mouseLeftPress, 400, 300⟩] := by
  decide

/-! ## Button transitions -/

/-- The two buttons with messages. -/
inductive Button where
  | left
  | right
  deriving DecidableEq, Repr

/-- The state of a button in a packet. -/
def Packet.down (packet : Packet) : Button → Bool
  | .left => packet.left
  | .right => packet.right

/-- The state of a button after the packets taken so far. -/
def Pointer.down (pointer : Pointer) : Button → Bool
  | .left => pointer.left
  | .right => pointer.right

/-- A message about a button: `true` for a press, `false` for a release. -/
def Button.transition : Button → MsgType → Option Bool
  | .left, .mouseLeftPress => some true
  | .left, .mouseLeftRelease => some false
  | .right, .mouseRightPress => some true
  | .right, .mouseRightRelease => some false
  | _, _ => none

/-- The presses and releases of a button among the messages. -/
def Button.transitions (button : Button) (events : List MouseEvent) : List Bool :=
  events.filterMap fun event => button.transition event.mouseOpt

/-- Presses and releases alternate, starting with the given one. -/
def alternate : Bool → List Bool → Bool
  | _, [] => true
  | expected, transition :: transitions =>
    transition == expected && alternate (!expected) transitions

/-- The presses and releases of a button alternate, starting with a press, and
the last one (or its absence) is the given state. -/
def Button.Follows (button : Button) (events : List MouseEvent) (down : Bool) : Prop :=
  alternate true (button.transitions events) = true ∧
    (button.transitions events).getLast?.getD false = down

/-- A packet changes the state of both buttons. -/
def Packet.ChangesBoth (packet : Packet) (pointer : Pointer) : Prop :=
  ∀ button, packet.down button ≠ pointer.down button

theorem alternate_concat (first : Bool) (transitions : List Bool) (transition : Bool) :
    alternate first (transitions ++ [transition]) =
      (alternate first transitions &&
        transition == !(transitions.getLast?.getD (!first))) := by
  induction transitions generalizing first with
  | nil => simp [alternate]
  | cons head transitions ih =>
    rw [cons_append, alternate, alternate, ih]
    cases transitions with
    | nil => cases head <;> cases first <;> simp [alternate]
    | cons second transitions => simp [getLast?_cons, Bool.and_assoc]

variable {button : Button} {events : List MouseEvent}

variable {event : MouseEvent}

/-- A message that is not about the button changes nothing for it. -/
theorem Button.follows_concat_none (other : button.transition event.mouseOpt = none)
    (events : List MouseEvent) (down : Bool) :
    button.Follows (events ++ [event]) down ↔ button.Follows events down := by
  simp [Button.Follows, Button.transitions, other]

/-- A message about a changed button keeps the alternation. -/
theorem Button.Follows.concat_some {before : Bool} (follows : button.Follows events before)
    {down : Bool} (about : button.transition event.mouseOpt = some down) (changed : down ≠ before) :
    button.Follows (events ++ [event]) down := by
  obtain ⟨alternates, last⟩ := follows
  have more : button.transitions (events ++ [event]) = button.transitions events ++ [down] := by
    simp [Button.transitions, about]
  rw [Button.Follows, more, alternate_concat, alternates, Bool.not_true, last]
  simp [Bool.eq_not.mpr changed]

theorem packetOpt_left (left right leftDown rightDown : Bool) :
    Button.left.transition (packetOpt left right leftDown rightDown) =
      if left = leftDown then none else some left := by
  revert left right leftDown rightDown
  decide

/-- The right button gets a message only if the left one did not change. -/
theorem packetOpt_right (left right leftDown rightDown : Bool) :
    Button.right.transition (packetOpt left right leftDown rightDown) =
      if left = leftDown ∧ right ≠ rightDown then some right else none := by
  revert left right leftDown rightDown
  decide

theorem Pointer.take_rejected (pointer : Pointer) (rejected : packet.accepted = false) :
    pointer.take packet = (pointer, none) := by
  simp [Pointer.take, rejected]

theorem Pointer.take_down (pointer : Pointer) (taken : packet.accepted = true) (button : Button) :
    (pointer.take packet).1.down button = packet.down button := by
  rw [Pointer.take, if_pos taken]
  cases button <;> rfl

/-- What an accepted packet says about the buttons. -/
theorem Pointer.take_event (pointer : Pointer) (taken : packet.accepted = true) :
    ∃ event, (pointer.take packet).2 = some event ∧
      event.mouseOpt = packetOpt packet.left packet.right pointer.left pointer.right := by
  rw [Pointer.take, if_pos taken]
  exact ⟨_, rfl, rfl⟩

section

variable {pointer : Pointer}

theorem transition_of_same (same : packet.down button = pointer.down button) :
    button.transition (packetOpt packet.left packet.right pointer.left pointer.right) = none := by
  cases button with
  | left => exact (packetOpt_left _ _ _ _).trans (if_pos same)
  | right => exact (packetOpt_right _ _ _ _).trans (if_neg fun changed => changed.2 same)

/-- A changed button gets its message, the right one only if the left one did not
change as well. -/
theorem transition_of_changed (changed : packet.down button ≠ pointer.down button)
    (kept : button = .right → ¬ packet.ChangesBoth pointer) :
    button.transition (packetOpt packet.left packet.right pointer.left pointer.right) =
      some (packet.down button) := by
  cases button with
  | left => exact (packetOpt_left _ _ _ _).trans (if_neg changed)
  | right =>
    have leftSame : packet.left = pointer.left := by
      by_contra leftChanged
      apply kept rfl
      rintro (_ | _)
      · exact leftChanged
      · exact changed
    exact (packetOpt_right _ _ _ _).trans (if_pos ⟨leftSame, changed⟩)

/-- After an accepted packet the messages about a button follow its state. -/
theorem Button.Follows.take (follows : button.Follows events (pointer.down button))
    (taken : packet.accepted = true) (kept : button = .right → ¬ packet.ChangesBoth pointer) :
    button.Follows (events ++ (pointer.take packet).2.toList) (packet.down button) := by
  obtain ⟨event, posted, opt⟩ := pointer.take_event taken
  rw [posted, toList_some]
  by_cases same : packet.down button = pointer.down button
  · rw [same, Button.follows_concat_none (by rw [opt, transition_of_same same])]
    exact follows
  · exact follows.concat_some (by rw [opt, transition_of_changed same kept]) same

/-- A packet that changes both buttons has no message for the right one. -/
theorem not_follows_of_changesBoth (follows : Button.right.Follows events (pointer.down .right))
    (taken : packet.accepted = true) (both : packet.ChangesBoth pointer) :
    ¬ Button.right.Follows (events ++ (pointer.take packet).2.toList) (packet.down .right) := by
  obtain ⟨event, posted, opt⟩ := pointer.take_event taken
  have other : Button.right.transition event.mouseOpt = none := by
    rw [opt, packetOpt_right, if_neg (fun changed => both .left changed.1)]
  rw [posted, toList_some, Button.follows_concat_none other]
  intro alsoFollows
  exact both .right (alsoFollows.2.symm.trans follows.2)

end

/-- If the messages about a button follow its state after every accepted packet,
they follow it throughout. -/
theorem follows_throughout (button : Button) (packets : List Packet)
    (follows : ∀ before packet after, packets = before ++ packet :: after →
      packet.accepted = true →
      button.Follows (trace Pointer.take Mouse.initial.pointer before).2
        ((trace Pointer.take Mouse.initial.pointer before).1.down button) →
      button.Follows (trace Pointer.take Mouse.initial.pointer (before ++ [packet])).2
        (packet.down button)) :
    button.Follows (trace Pointer.take Mouse.initial.pointer packets).2
      ((trace Pointer.take Mouse.initial.pointer packets).1.down button) := by
  induction packets using List.reverseRecOn with
  | nil => cases button <;> exact ⟨rfl, rfl⟩
  | append_singleton packets packet ih =>
    have before := ih fun earlier taken later split =>
      follows earlier taken (later ++ [packet]) (by rw [split]; simp)
    cases taken : packet.accepted with
    | true =>
      have after := follows packets packet [] rfl taken before
      rw [trace_concat] at after ⊢
      rw [Pointer.take_down _ taken]
      exact after
    | false =>
      rw [trace_concat, Pointer.take_rejected _ taken]
      simpa using before

/-- The messages about the left button follow its state after every accepted
packet.  Those about the right button do so as well if and only if no accepted
packet changes both buttons. -/
theorem button_transitions_kept_iff (packets : List Packet)
    (keep : ∀ packet ∈ packets, packet.KeepsFrame) :
    (∀ before packet after, packets = before ++ packet :: after → packet.accepted = true →
      Button.left.Follows (trace receive .initial (streamBytes (before ++ [packet]))).2
        packet.left) ∧
    ((∀ before packet after, packets = before ++ packet :: after → packet.accepted = true →
      Button.right.Follows (trace receive .initial (streamBytes (before ++ [packet]))).2
        packet.right) ↔
      ∀ before packet after, packets = before ++ packet :: after → packet.accepted = true →
        ¬ packet.ChangesBoth (trace Pointer.take Mouse.initial.pointer before).1) := by
  have decoded : ∀ before packet after, packets = before ++ packet :: after →
      (trace receive .initial (streamBytes (before ++ [packet]))).2 =
        (trace Pointer.take Mouse.initial.pointer (before ++ [packet])).2 := by
    intro before packet after split
    refine (trace_stream ⟨rfl, rfl⟩ fun earlier member => keep earlier ?_).2
    rw [split, append_cons]
    exact mem_append_left after member
  have earlierSplit : ∀ {before packet after}, packets = before ++ packet :: after →
      ∀ {earlier first later}, before = earlier ++ first :: later →
        packets = earlier ++ first :: (later ++ packet :: after) := by
    intro before packet after split earlier first later isSplit
    rw [split, isSplit]
    simp
  refine ⟨?_, ?_, ?_⟩
  · intro before packet after split taken
    rw [decoded before packet after split, trace_concat]
    refine Button.Follows.take (follows_throughout .left before ?_) taken (by simp)
    intro earlier first later _ firstTaken follows
    rw [trace_concat]
    exact follows.take firstTaken (by simp)
  · intro follows before packet after split taken both
    have followsAfter := follows before packet after split taken
    rw [decoded before packet after split, trace_concat] at followsAfter
    refine not_follows_of_changesBoth (follows_throughout .right before ?_) taken both followsAfter
    intro earlier first later isSplit firstTaken _
    rw [← decoded earlier first _ (earlierSplit split isSplit)]
    exact follows earlier first _ (earlierSplit split isSplit) firstTaken
  · intro kept before packet after split taken
    rw [decoded before packet after split, trace_concat]
    refine Button.Follows.take (follows_throughout .right before ?_) taken
      fun _ => kept before packet after split taken
    intro earlier first later isSplit firstTaken follows
    rw [trace_concat]
    exact follows.take firstTaken fun _ =>
      kept earlier first _ (earlierSplit split isSplit) firstTaken

/-- The packet of a click with both buttons. -/
def bothClick : Packet where
  first := 0x0b
  second := 0x00
  third := 0x00
  wellFormed := by decide

theorem left_click_followed :
    Button.left.Follows (trace receive .initial (streamBytes [leftClick])).2 true :=
  (button_transitions_kept_iff [leftClick] fun packet member middle => by
    rw [mem_singleton.mp member] at middle
    exact absurd middle (by decide)).1 [] leftClick [] rfl (by decide)

/-- When both buttons go down at once, the press of the right one is lost. -/
theorem right_press_lost :
    bothClick.accepted = true ∧ bothClick.right = true ∧
      (trace receive .initial (streamBytes [bothClick])).2 = [⟨.mouseLeftPress, 400, 300⟩] := by
  decide

/-! ## The position -/

/-- The position is on the screen. -/
def Mouse.OnScreen (mouse : Mouse) : Prop :=
  0 ≤ mouse.xPos ∧ mouse.xPos < 800 ∧ 0 ≤ mouse.yPos ∧ mouse.yPos < 600

theorem checkInRange_bounds (v : Int) {max : Int} (positive : 0 < max) :
    0 ≤ checkInRange v 0 max ∧ checkInRange v 0 max < max := by
  simp only [checkInRange]
  split <;> split <;> omega

/-- An interrupt without a message leaves the position alone; one with a message
sends the new position, which is on the screen, and a mouse type. -/
theorem mouseintr_cases (mouse : Mouse) (st data : UInt8) :
    ((mouseintr mouse st data).2 = none ∧ (mouseintr mouse st data).1.xPos = mouse.xPos ∧
        (mouseintr mouse st data).1.yPos = mouse.yPos) ∨
      ∃ event, (mouseintr mouse st data).2 = some event ∧
        event.mouseOpt ≠ .keyboard ∧ event.x = (mouseintr mouse st data).1.xPos ∧
        event.y = (mouseintr mouse st data).1.yPos ∧ (mouseintr mouse st data).1.OnScreen := by
  have notKeyboard : ∀ left right leftDown rightDown,
      packetOpt left right leftDown rightDown ≠ .keyboard := by decide
  unfold mouseintr
  split
  · exact .inl ⟨rfl, rfl, rfl⟩
  simp only
  split
  · left
    unfold firstByte
    split <;> exact ⟨rfl, rfl, rfl⟩
  · exact .inl ⟨rfl, rfl, rfl⟩
  · simp only [thirdByte]
    split
    · exact .inl ⟨rfl, rfl, rfl⟩
    refine .inr ⟨_, rfl, notKeyboard _ _ _ _, rfl, rfl, ?_⟩
    obtain ⟨xLow, xHigh⟩ :=
      checkInRange_bounds (mouse.xPos + mouse.xDelta) (by decide : (0 : Int) < 800)
    obtain ⟨yLow, yHigh⟩ := checkInRange_bounds
      (mouse.yPos - signedDelta data mouse.ySign) (by decide : (0 : Int) < 600)
    exact ⟨xLow, xHigh, yLow, yHigh⟩
  · exact .inl ⟨rfl, rfl, rfl⟩

theorem Mouse.OnScreen.initial : Mouse.initial.OnScreen := by
  unfold Mouse.OnScreen
  decide

theorem Mouse.OnScreen.mouseintr (onScreen : mouse.OnScreen) (st data : UInt8) :
    (mouseintr mouse st data).1.OnScreen := by
  rcases mouseintr_cases mouse st data with ⟨-, sameX, sameY⟩ | ⟨event, -, -, -, -, stays⟩
  · rw [Mouse.OnScreen, sameX, sameY]
    exact onScreen
  · exact stays

end XEditor.Kernel
