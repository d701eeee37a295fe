import XEditor.Edit.TextEdit
import XEditor.Kernel.Mouse

/-!
# The event loop

The loop of `main` takes a message from the kernel, unpacks it and hands it to
the buffer manager.  The packing is done by `add_mouse_msg` in the kernel; both
sides have their own copy of `enum MSG_TYPE`.
-/

namespace XEditor.Gui

open Option Edit Kernel Run

/-- The expression `msg >> 24`. -/
def messageType (msg : BitVec 32) : Int :=
  (msg.sshiftRight 24).toInt

/-- The expression `msg >> 12 & 0xfff`. -/
def messageX (msg : BitVec 32) : Int :=
  (msg.sshiftRight 12 &&& 0xfff).toInt

/-- The expression `msg & 0xfff`. -/
def messageY (msg : BitVec 32) : Int :=
  (msg &&& 0xfff).toInt

/-- What the buffer manager is called with. -/
inductive Input where
  | mouse (x y : Int) (mouseOpt : MouseOpt)
  | keyboard (c : Int)
  deriving DecidableEq, Repr

/-- The switch of `main`, over the program's copy of `enum MSG_TYPE`. -/
def dispatch (msg : BitVec 32) : Option Input :=
  match messageType msg with
  | 0 => some (.keyboard (msg &&& 0xffffff).toInt)
  | 1 => some (.mouse (messageX msg) (messageY msg) .leftPress)
  | 2 => some (.mouse (messageX msg) (messageY msg) .leftRelease)
  | 3 => some (.mouse (messageX msg) (messageY msg) .rightPress)
  | 4 => some (.mouse (messageX msg) (messageY msg) .rightRelease)
  | 5 => some (.mouse (messageX msg) (messageY msg) .move)
  | _ => none

/-- The mouse message of the kernel's enumeration. -/
def mouseOptOf : MsgType → Option MouseOpt
  | .keyboard => none
  | .mouseLeftPress => some .leftPress
  | .mouseLeftRelease => some .leftRelease
  | .mouseRightPress => some .rightPress
  | .mouseRightRelease => some .rightRelease
  | .mouseMove => some .move

/-! ## Packing -/

/-- The fields of a packed message do not overlap. -/
theorem mouseMsg_toNat (mouseOpt : MsgType) {x y : Nat} (xBound : x < 4096) (yBound : y < 4096) :
    (mouseMsg mouseOpt x y).toNat = mouseOpt.code * 2 ^ 24 + x * 2 ^ 12 + y := by
  have code : mouseOpt.code < 6 := by cases mouseOpt <;> decide
  have high : mouseOpt.code <<< 24 ||| x <<< 12 = (mouseOpt.code <<< 12 + x) <<< 12 := by
    rw [← Nat.shiftLeft_add_eq_or_of_lt (by rw [Nat.shiftLeft_eq]; omega)]
    omega
  have fields : mouseOpt.code <<< 24 ||| x <<< 12 ||| y =
      mouseOpt.code * 2 ^ 24 + x * 2 ^ 12 + y := by
    rw [high, ← Nat.shiftLeft_add_eq_or_of_lt yBound]
    omega
  have optField : (BitVec.ofNat 32 mouseOpt.code <<< 24).toNat = mouseOpt.code <<< 24 := by
    simp only [BitVec.toNat_shiftLeft, BitVec.toNat_ofNat, Nat.shiftLeft_eq]
    omega
  have xField : (BitVec.ofInt 32 (x : Int) <<< 12).toNat = x <<< 12 := by
    simp only [BitVec.toNat_shiftLeft, BitVec.toNat_ofInt, Nat.shiftLeft_eq]
    omega
  have yField : (BitVec.ofInt 32 (y : Int)).toNat = y := by
    simp only [BitVec.toNat_ofInt]
    omega
  rw [mouseMsg, BitVec.toNat_or, BitVec.toNat_or, optField, xField, yField, fields]

/-- A message that is not negative is unpacked by division and remainder. -/
theorem unpack_eq (msg : BitVec 32) (positive : msg.toNat < 2 ^ 31) :
    messageType msg = (msg.toNat / 2 ^ 24 : Nat) ∧
      messageX msg = (msg.toNat / 2 ^ 12 % 2 ^ 12 : Nat) ∧
      messageY msg = (msg.toNat % 2 ^ 12 : Nat) := by
  have sign : msg.msb = false := BitVec.msb_eq_false_iff_two_mul_lt.mpr (by omega)
  have mask : (0xfff : BitVec 32).toNat = 2 ^ 12 - 1 := rfl
  have typeNat : (msg.sshiftRight 24).toNat = msg.toNat / 2 ^ 24 := by
    rw [BitVec.toNat_sshiftRight_of_msb_false sign, Nat.shiftRight_eq_div_pow]
  have xNat : (msg.sshiftRight 12 &&& 0xfff).toNat = msg.toNat / 2 ^ 12 % 2 ^ 12 := by
    rw [BitVec.toNat_and, mask, Nat.and_two_pow_sub_one_eq_mod,
      BitVec.toNat_sshiftRight_of_msb_false sign, Nat.shiftRight_eq_div_pow]
  have yNat : (msg &&& 0xfff).toNat = msg.toNat % 2 ^ 12 := by
    rw [BitVec.toNat_and, mask, Nat.and_two_pow_sub_one_eq_mod]
  refine ⟨?_, ?_, ?_⟩
  · rw [messageType, BitVec.toInt_eq_toNat_of_lt (by omega), typeNat]
  · rw [messageX, BitVec.toInt_eq_toNat_of_lt (by omega), xNat]
  · rw [messageY, BitVec.toInt_eq_toNat_of_lt (by omega), yNat]

/-- Unpacking inverts packing for coordinates of 12 bits. -/
theorem unpack_mouseMsg (mouseOpt : MsgType) {x y : Int} (xLow : 0 ≤ x) (xHigh : x < 4096)
    (yLow : 0 ≤ y) (yHigh : y < 4096) :
    messageType (mouseMsg mouseOpt x y) = mouseOpt.code ∧
      messageX (mouseMsg mouseOpt x y) = x ∧ messageY (mouseMsg mouseOpt x y) = y := by
  obtain ⟨column, rfl⟩ := Int.eq_ofNat_of_zero_le xLow
  obtain ⟨row, rfl⟩ := Int.eq_ofNat_of_zero_le yLow
  have code : mouseOpt.code < 6 := by cases mouseOpt <;> decide
  have packed := mouseMsg_toNat mouseOpt (Int.ofNat_lt.mp xHigh) (Int.ofNat_lt.mp yHigh)
  obtain ⟨typeOf, xOf, yOf⟩ := unpack_eq (mouseMsg mouseOpt column row) (by omega)
  omega

theorem code_ne_keyboard {mouseOpt : MsgType} (isMouse : mouseOpt ≠ .keyboard) :
    (mouseOpt.code : Int) ≠ MsgType.keyboard.code := by
  cases mouseOpt with
  | keyboard => exact absurd rfl isMouse
  | _ => decide

/-- `main` calls the mouse handler with the event that was packed. -/
theorem dispatch_mouseMsg {mouseOpt : MsgType} (isMouse : mouseOpt ≠ .keyboard) {x y : Int}
    (xLow : 0 ≤ x) (xHigh : x < 4096) (yLow : 0 ≤ y) (yHigh : y < 4096) :
    dispatch (mouseMsg mouseOpt x y) = (mouseOptOf mouseOpt).map (Input.mouse x y) := by
  obtain ⟨typeOf, xOf, yOf⟩ := unpack_mouseMsg mouseOpt xLow xHigh yLow yHigh
  rw [dispatch, typeOf, xOf, yOf]
  cases mouseOpt with
  | keyboard => exact absurd rfl isMouse
  | _ => rfl

/-- The state of the mouse driver after a sequence of interrupts, each with the
status and the data byte it reads. -/
def mouseAfter (interrupts : List (UInt8 × UInt8)) : Mouse :=
  (trace (fun mouse (port : UInt8 × UInt8) => mouseintr mouse port.1 port.2)
    .initial interrupts).1

theorem mouseAfter_onScreen (interrupts : List (UInt8 × UInt8)) :
    (mouseAfter interrupts).OnScreen :=
  trace_invariant (fun _ port onScreen => onScreen.mouseintr port.1 port.2) .initial interrupts

/-- Whatever bytes the mouse sends, its position stays on the screen, and every
message the interrupt adds is unpacked to its type and the new position, is not
zero and is not taken for a key. -/
theorem mouse_events_survive (interrupts : List (UInt8 × UInt8)) (st data : UInt8) :
    (mouseAfter interrupts).OnScreen ∧
      (mouseintr (mouseAfter interrupts) st data).1.OnScreen ∧
      ∀ after event msg, mouseintr (mouseAfter interrupts) st data = (after, some event) →
        msg = mouseMsg event.mouseOpt event.x event.y →
        messageType msg = event.mouseOpt.code ∧ messageX msg = after.xPos ∧
          messageY msg = after.yPos ∧ msg ≠ 0 ∧ messageType msg ≠ MsgType.keyboard.code ∧
          dispatch msg =
            (mouseOptOf event.mouseOpt).map (Input.mouse after.xPos after.yPos) := by
  have onScreen := mouseAfter_onScreen interrupts
  refine ⟨onScreen, onScreen.mouseintr st data, ?_⟩
  rintro after event msg interrupted rfl
  rcases mouseintr_cases (mouseAfter interrupts) st data with
    ⟨silent, -, -⟩ | ⟨sent, posted, rest⟩
  · rw [interrupted] at silent
    cases silent
  rw [interrupted] at posted rest
  obtain rfl : event = sent := some.inj posted
  obtain ⟨isMouse, sameX, sameY, xLow, xHigh, yLow, yHigh⟩ := rest
  rw [← sameX] at xLow xHigh
  rw [← sameY] at yLow yHigh
  obtain ⟨typeOf, xOf, yOf⟩ := unpack_mouseMsg event.mouseOpt xLow (by omega) yLow (by omega)
  have notKey : messageType (mouseMsg event.mouseOpt event.x event.y) ≠
      MsgType.keyboard.code := by
    rw [typeOf]
    exact code_ne_keyboard isMouse
  refine ⟨typeOf, xOf.trans sameX, yOf.trans sameY, ?_, notKey, ?_⟩
  · intro zero
    rw [zero] at notKey
    exact notKey (by decide)
  · rw [dispatch_mouseMsg isMouse xLow (by omega) yLow (by omega), sameX, sameY]

end XEditor.Gui
