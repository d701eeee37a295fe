import Mathlib.Data.List.Induction
import XEditor.Lib.Ring

/-!
# The message queue

Source `sys_get_msg.c`: the keyboard and the mouse interrupt add messages to a
ring of `KBD_C_QUEUE_LENGTH` cells, the system call `get_msg` takes them out.
Messages are 32-bit words.  Both interrupts run with interrupts disabled, so a
call to add a message is one step.

The books kept beside the queue say which messages have been added, delivered
and are still outstanding; the queue itself never reads them.
-/

namespace XEditor.Kernel

/-- `enum MSG_TYPE`. -/
inductive MsgType where
  | keyboard
  | mouseLeftPress
  | mouseLeftRelease
  | mouseRightPress
  | mouseRightRelease
  | mouseMove
  deriving DecidableEq, Repr

/-- The value of an enumeration constant. -/
def MsgType.code : MsgType → Nat
  | .keyboard => 0
  | .mouseLeftPress => 1
  | .mouseLeftRelease => 2
  | .mouseRightPress => 3
  | .mouseRightRelease => 4
  | .mouseMove => 5

/-- `KBD_C_QUEUE_LENGTH`. -/
def kbdCQueueLength : Nat :=
  100

/-- The variables `message`, `front` and `tail`. -/
abbrev Queue : Type :=
  Ring (BitVec 32) kbdCQueueLength

/-- The queue at boot: the variables are zero. -/
def Queue.initial : Queue where
  cells := Vector.replicate kbdCQueueLength 0
  front := ⟨0, by decide⟩
  tail := ⟨0, by decide⟩

/-- Source `add_kbd_msg`. -/
def addKbdMsg (queue : Queue) (c : BitVec 32) : Queue :=
  queue.push c

/-- The word of a mouse message. -/
def mouseMsg (mouseOpt : MsgType) (x y : Int) : BitVec 32 :=
  BitVec.ofNat 32 mouseOpt.code <<< 24 ||| BitVec.ofInt 32 x <<< 12 ||| BitVec.ofInt 32 y

/-- Source `add_mouse_msg`. -/
def addMouseMsg (queue : Queue) (mouseOpt : MsgType) (x y : Int) : Queue :=
  queue.push (mouseMsg mouseOpt x y)

/-- Source `sys_get_msg`: the message returned, and the queue after the call. -/
def sysGetMsg (queue : Queue) : BitVec 32 × Queue :=
  match queue.pop with
  | (none, queue) => (0, queue)
  | (some message, queue) => (message, queue)

/-- `sys_get_msg` with interrupts that add messages between its test and its
read. -/
def sysGetMsgDuring (queue : Queue) (added : List (BitVec 32)) : BitVec 32 × Queue :=
  match queue.popDuring added with
  | (none, queue) => (0, queue)
  | (some message, queue) => (message, queue)

/-! ## Calls and the books kept of them -/

/-- A call on the queue. -/
inductive Call where
  | addKbdMsg (c : BitVec 32)
  | addMouseMsg (mouseOpt : MsgType) (x y : Int)
  | sysGetMsg
  deriving DecidableEq, Repr

/-- The queue with the messages added, delivered, and outstanding. -/
structure Books where
  queue : Queue
  added : List (BitVec 32)
  delivered : List (BitVec 32)
  outstanding : List (BitVec 32)

/-- Nothing has been added at boot. -/
def Books.initial : Books :=
  ⟨.initial, [], [], []⟩

/-- Enter a message that has been added. -/
def Books.add (books : Books) (queue : Queue) (message : BitVec 32) : Books where
  queue := queue
  added := books.added ++ [message]
  delivered := books.delivered
  outstanding := books.outstanding ++ [message]

/-- Make a call.  A message returned while none is outstanding is not a
delivery. -/
def Books.call (books : Books) : Call → Books
  | .addKbdMsg c => books.add (Kernel.addKbdMsg books.queue c) c
  | .addMouseMsg mouseOpt x y =>
    books.add (Kernel.addMouseMsg books.queue mouseOpt x y) (mouseMsg mouseOpt x y)
  | .sysGetMsg =>
    let (message, queue) := Kernel.sysGetMsg books.queue
    { books with
      queue
      delivered :=
        if books.outstanding = [] then books.delivered else books.delivered ++ [message]
      outstanding := books.outstanding.tail }

/-- The books after a sequence of calls. -/
def books (calls : List Call) : Books :=
  calls.foldl Books.call .initial

/-- A `get_msg` made now returns the oldest outstanding message and removes just
it; with none outstanding it returns zero and changes nothing. -/
structure Books.Serves (books : Books) : Prop where
  empty : books.outstanding = [] → Kernel.sysGetMsg books.queue = (0, books.queue)
  oldest : ∀ message rest, books.outstanding = message :: rest →
    ∃ queue : Queue, Kernel.sysGetMsg books.queue = (message, queue) ∧ queue.Holds rest

/-- The queue holds the outstanding messages, and no message is lost, doubled
or out of order. -/
structure Books.Kept (books : Books) : Prop where
  holds : books.queue.Holds books.outstanding
  balance : books.delivered ++ books.outstanding = books.added

@[simp]
theorem books_concat (calls : List Call) (call : Call) :
    books (calls ++ [call]) = (books calls).call call := by
  simp [books]

/-! ## One call -/

variable {queue : Queue}

/-- With no message outstanding, or with a full queue, `sys_get_msg` returns
zero and changes nothing. -/
theorem sysGetMsg_zero {pending : List (BitVec 32)} (holds : queue.Holds pending)
    (extreme : pending = [] ∨ pending.length = kbdCQueueLength) :
    sysGetMsg queue = (0, queue) := by
  rw [sysGetMsg, holds.pop_none extreme]

/-- Messages added in the middle of `sys_get_msg` come behind it. -/
theorem sysGetMsgDuring_eq {pending added : List (BitVec 32)} (holds : queue.Holds pending)
    (room : pending.length + added.length ≤ kbdCQueueLength) :
    sysGetMsgDuring queue added =
      ((sysGetMsg queue).1, added.foldl Ring.push (sysGetMsg queue).2) := by
  rw [sysGetMsgDuring, sysGetMsg, holds.popDuring room]
  rcases queue.pop with ⟨_ | message, after⟩ <;> rfl

theorem Books.Kept.initial : Books.initial.Kept :=
  ⟨(Ring.holds_nil _).mpr rfl, rfl⟩

section

variable {books : Books} (kept : books.Kept)
include kept

theorem Books.Kept.serves (room : books.outstanding.length < kbdCQueueLength) : books.Serves := by
  refine ⟨fun empty => sysGetMsg_zero kept.holds (.inl empty), ?_⟩
  intro message rest outstanding
  have holds := kept.holds
  rw [outstanding] at holds room
  obtain ⟨after, popped, holdsRest⟩ := holds.pop room
  exact ⟨after, by rw [sysGetMsg, popped], holdsRest⟩

theorem Books.Kept.add (room : books.outstanding.length < kbdCQueueLength) (message : BitVec 32) :
    (books.add (books.queue.push message) message).Kept := by
  refine ⟨kept.holds.push room message, ?_⟩
  simp only [Books.add]
  rw [← List.append_assoc, kept.balance]

theorem Books.Kept.get (serves : books.Serves) : (books.call .sysGetMsg).Kept := by
  cases outstanding : books.outstanding with
  | nil =>
    have holds := kept.holds
    have balance := kept.balance
    have unchanged := serves.empty outstanding
    exact ⟨by simpa [Books.call, outstanding, unchanged] using holds,
      by simpa [Books.call, outstanding] using balance⟩
  | cons message rest =>
    obtain ⟨queue, served, holds⟩ := serves.oldest message rest outstanding
    have balance := kept.balance
    exact ⟨by simpa [Books.call, outstanding, served] using holds,
      by simpa [Books.call, outstanding, served] using balance⟩

/-- A call keeps the books if there is room for what it adds and a message is
served as it should. -/
theorem Books.Kept.call (call : Call)
    (fits : (books.call call).outstanding.length ≤ kbdCQueueLength)
    (serves : call = .sysGetMsg → books.Serves) : (books.call call).Kept := by
  have roomToAdd : ∀ queue message,
      (books.add queue message).outstanding.length ≤ kbdCQueueLength →
        books.outstanding.length < kbdCQueueLength := by
    intro queue message fits
    rw [Books.add, List.length_append] at fits
    exact fits
  cases call with
  | addKbdMsg c => exact kept.add (roomToAdd _ _ fits) c
  | addMouseMsg mouseOpt x y => exact kept.add (roomToAdd _ _ fits) (mouseMsg mouseOpt x y)
  | sysGetMsg => exact kept.get (serves rfl)

/-- A full queue does not serve its oldest message. -/
theorem Books.Kept.not_serves (full : books.outstanding.length = kbdCQueueLength) :
    ¬ books.Serves := by
  intro serves
  cases outstanding : books.outstanding with
  | nil =>
    rw [outstanding] at full
    exact absurd full (by decide)
  | cons message rest =>
    obtain ⟨queue, served, holds⟩ := serves.oldest message rest outstanding
    rw [sysGetMsg_zero kept.holds (.inr full)] at served
    have unchanged : books.queue = queue := congrArg Prod.snd served
    rw [← unchanged] at holds
    rw [outstanding] at full
    exact kept.holds.not_of_full (by rw [outstanding, full]) full (by decide) holds

end

/-! ## Whole interleavings -/

/-- The books are kept as long as at most 100 messages are outstanding and every
`get_msg` serves. -/
theorem books_kept (calls : List Call)
    (fits : ∀ before, before <+: calls →
      (books before).outstanding.length ≤ kbdCQueueLength)
    (serves : ∀ before after, calls = before ++ .sysGetMsg :: after → (books before).Kept →
      (books before).Serves) : (books calls).Kept := by
  induction calls using List.reverseRecOn with
  | nil => exact Books.Kept.initial
  | append_singleton calls call ih =>
    have kept : (books calls).Kept := by
      apply ih
      · intro before isPrefix
        exact fits before (isPrefix.trans (List.prefix_append calls [call]))
      · intro before after split
        exact serves before (after ++ [call]) (by rw [split]; simp)
    have fitsAll := fits (calls ++ [call]) (List.prefix_refl _)
    rw [books_concat] at fitsAll ⊢
    apply kept.call call fitsAll
    intro isGet
    exact serves calls [] (by rw [isGet]) kept

/-- No more messages are outstanding than calls have added one. -/
theorem outstanding_length_le (calls : List Call) :
    (books calls).outstanding.length ≤ calls.countP (· ≠ .sysGetMsg) := by
  induction calls using List.reverseRecOn with
  | nil => exact Nat.le_refl 0
  | append_singleton calls call ih =>
    rw [books_concat, List.countP_append]
    cases call with
    | addKbdMsg c => simpa [Books.call, Books.add] using ih
    | addMouseMsg mouseOpt x y => simpa [Books.call, Books.add] using ih
    | sysGetMsg =>
      simp only [Books.call, List.length_tail]
      omega

/-- Calls that add at most 100 messages in all never have more outstanding. -/
theorem outstanding_fits {calls : List Call}
    (few : calls.countP (· ≠ .sysGetMsg) ≤ kbdCQueueLength) :
    ∀ before, before <+: calls → (books before).outstanding.length ≤ kbdCQueueLength := by
  intro before isPrefix
  calc (books before).outstanding.length
      ≤ before.countP (· ≠ .sysGetMsg) := outstanding_length_le before
    _ ≤ calls.countP (· ≠ .sysGetMsg) := isPrefix.sublist.countP_le
    _ ≤ kbdCQueueLength := few

theorem books_replicate_outstanding (count : Nat) (c : BitVec 32) :
    (books (List.replicate count (.addKbdMsg c))).outstanding = List.replicate count c := by
  induction count with
  | zero => rfl
  | succ count ih =>
    rw [List.replicate_succ', books_concat, List.replicate_succ', ← ih]
    rfl

/-- With at most 100 messages outstanding throughout, every `get_msg` serves and
no message is lost, doubled or out of order, if and only if no `get_msg` is made
while all 100 cells are taken. -/
theorem messages_delivered_in_order_iff (calls : List Call)
    (fits : ∀ before, before <+: calls →
      (books before).outstanding.length ≤ kbdCQueueLength) :
    ((∀ before after, calls = before ++ .sysGetMsg :: after → (books before).Serves) ∧
        (books calls).delivered ++ (books calls).outstanding = (books calls).added) ↔
      ∀ before after, calls = before ++ .sysGetMsg :: after →
        (books before).outstanding.length < kbdCQueueLength := by
  have fitsBefore : ∀ before rest, calls = before ++ rest → ∀ earlier, earlier <+: before →
      (books earlier).outstanding.length ≤ kbdCQueueLength := by
    intro before rest split earlier isPrefix
    exact fits earlier (isPrefix.trans ⟨rest, split.symm⟩)
  constructor
  · rintro ⟨serves, -⟩ before after split
    have kept : (books before).Kept := by
      apply books_kept before (fitsBefore before _ split)
      intro earlier later isGet _
      exact serves earlier (later ++ .sysGetMsg :: after) (by rw [split, isGet]; simp)
    have bound := fits before ⟨_, split.symm⟩
    have notFull : (books before).outstanding.length ≠ kbdCQueueLength :=
      fun full => kept.not_serves full (serves before after split)
    omega
  · intro room
    have keptBefore : ∀ before rest, calls = before ++ rest → (books before).Kept := by
      intro before rest split
      apply books_kept before (fitsBefore before rest split)
      intro earlier later isGet kept
      exact kept.serves (room earlier (later ++ rest) (by rw [split, isGet]; simp))
    refine ⟨fun before after split => ?_, (keptBefore calls [] (by simp)).balance⟩
    exact (keptBefore before _ split).serves (room before after split)

/-- A letter and a mouse move are delivered in this order. -/
theorem letter_and_move_delivered :
    (books [.addKbdMsg 97, .addMouseMsg .mouseMove 3 4, .sysGetMsg, .sysGetMsg]).delivered =
      [97, mouseMsg .mouseMove 3 4] := by
  have balance := ((messages_delivered_in_order_iff
    [.addKbdMsg 97, .addMouseMsg .mouseMove 3 4, .sysGetMsg, .sysGetMsg]
    (outstanding_fits (by decide))).mpr ?_).2
  · simpa [books, Books.call, Books.add, Books.initial] using balance
  intro before after split
  have few := outstanding_length_le before
  have short := congrArg List.length split
  have counted := List.countP_le_length (p := (· ≠ Call.sysGetMsg)) (l := before)
  simp only [List.length_cons, List.length_nil, List.length_append] at short
  have large : kbdCQueueLength = 100 := rfl
  omega

/-- With 100 messages outstanding `get_msg` returns zero. -/
theorem full_queue_looks_empty :
    (∀ before, before <+: List.replicate 100 (.addKbdMsg 97) ++ [.sysGetMsg] →
      (books before).outstanding.length ≤ kbdCQueueLength) ∧
    (books (List.replicate 100 (.addKbdMsg 97))).outstanding = List.replicate 100 97 ∧
    (sysGetMsg (books (List.replicate 100 (.addKbdMsg 97))).queue).1 = 0 := by
  have few : (List.replicate 100 (Call.addKbdMsg 97) ++ [Call.sysGetMsg]).countP
      (· ≠ Call.sysGetMsg) ≤ kbdCQueueLength := by
    rw [List.countP_append, List.countP_replicate]
    decide
  have fits := outstanding_fits few
  have outstanding := books_replicate_outstanding 100 97
  have kept : (books (List.replicate 100 (.addKbdMsg 97))).Kept := by
    apply books_kept
    · intro before isPrefix
      exact fits before (isPrefix.trans (List.prefix_append _ _))
    intro before after split
    have isGet : Call.sysGetMsg ∈ List.replicate 100 (Call.addKbdMsg 97) := by
      rw [split]
      simp
    simp at isGet
  refine ⟨fits, outstanding, ?_⟩
  rw [sysGetMsg_zero kept.holds (.inr (by rw [outstanding, List.length_replicate]; rfl))]

/-! ## Interrupted calls -/

/-- Messages that arrive between the test and the read of a `get_msg` come behind it,
as if the call had returned before they were added. -/
theorem interrupted_get_linearizes (calls : List Call) (added : List (BitVec 32))
    (fits : ∀ before, before <+: calls →
      (books before).outstanding.length ≤ kbdCQueueLength)
    (room : ∀ before after, calls = before ++ .sysGetMsg :: after →
      (books before).outstanding.length < kbdCQueueLength)
    (arrive : (books calls).outstanding.length + added.length ≤ kbdCQueueLength) :
    sysGetMsgDuring (books calls).queue added =
      ((sysGetMsg (books calls).queue).1,
        (books (calls ++ .sysGetMsg :: added.map .addKbdMsg)).queue) := by
  have kept : (books calls).Kept := by
    apply books_kept calls fits
    intro before after split kept
    exact kept.serves (room before after split)
  have later : (books (calls ++ .sysGetMsg :: added.map .addKbdMsg)).queue =
      added.foldl Ring.push (sysGetMsg (books calls).queue).2 := by
    rw [books, List.foldl_append, List.foldl_cons, List.foldl_map]
    exact (List.foldl_hom Books.queue fun _ _ => rfl).symm
  rw [sysGetMsgDuring_eq kept.holds arrive, later]

theorem interrupted_get_letter :
    (sysGetMsgDuring (books [.addKbdMsg 97]).queue [98]).1 = 97 := by
  rw [interrupted_get_linearizes [.addKbdMsg 97] [98] (outstanding_fits (by decide))
    (fun before after split => by simp [List.cons_eq_append_iff] at split) (by decide)]
  rfl

end XEditor.Kernel
