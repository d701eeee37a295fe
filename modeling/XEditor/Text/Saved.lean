import XEditor.Lib.Lines
import XEditor.Text.Save

/-!
# What a successful save has stored

`textframe_write` looks at the result of every write of a row and at none of the
writes of the line breaks between them.  A call that returns 0 has therefore
stored all rows, but only those line breaks whose writes went well.
-/

namespace XEditor.Text

open List Option Kernel Kernel.State Lines

/-! ## One write -/

variable {fault : Option Nat} {code fd : Int} {call ip : Nat} {faults : Nat → Option Nat}
  {state next : State}

/-- A row that is written in full is appended. -/
theorem writeCall_row {content row : List UInt8}
    (ok : (writeCall fault content content.length row).ok = true) :
    (row = [] ∨ content.length + row.length ≤ maxFileSize) ∧
      (writeCall fault content content.length row).content = content ++ row := by
  rcases writeCall_end fault content row with ⟨-, fits, all⟩ | ⟨stored, part⟩
  · rw [all]
    exact ⟨fits, rfl⟩
  · rw [part] at ok
    contradiction

theorem filewrite_byte (content : List UInt8) (byte : UInt8) :
    (filewrite content content.length [byte]).content =
      if content.length + 1 ≤ maxFileSize then content ++ [byte] else content := by
  by_cases fits : content.length + 1 ≤ maxFileSize
  · rw [if_pos fits, filewrite, filewriteLoop_end (Nat.le_refl _) (.inr fits)]
    rfl
  obtain ⟨stored, stored_lt, part⟩ :=
    filewriteLoop_end_full (Nat.le_refl _) (cons_ne_nil byte []) (Nat.not_le.mp fits)
  obtain rfl : stored = 0 := Nat.lt_one_iff.mp stored_lt
  rw [if_neg fits, filewrite, part]
  exact append_nil content

/-- One byte is appended unless the call fails at once or the file is full. -/
theorem writeCall_byte (fault : Option Nat) (content : List UInt8) (byte : UInt8) :
    (writeCall fault content content.length [byte]).content =
      if fault ≠ some 0 ∧ content.length + 1 ≤ maxFileSize then content ++ [byte]
      else content := by
  cases fault with
  | none =>
    rw [writeCall, filewrite_byte]
    simp only [ne_eq, reduceCtorEq, not_false_eq_true, true_and]
  | some limit =>
    cases limit with
    | zero => rfl
    | succ limit =>
      rw [writeCall, take_of_length_le (by simp)]
      simp only [filewrite_byte, ne_eq, some.injEq, Nat.succ_ne_zero, not_false_eq_true, true_and]

/-! ## The loop -/

/-- Every write of a line break stores it. -/
def BreaksStored (faults : Nat → Option Nat) (call : Nat) (content : List UInt8)
    (rows : List Row) : Prop :=
  content.length + (joinLines lineFeed rows).length ≤ maxFileSize ∧
    ∀ row, row + 1 < rows.length → faults (call + (2 * row + 1)) ≠ some 0

/-- The first line break and the others. -/
theorem breaksStored_cons_cons (faults : Nat → Option Nat) (call : Nat) (content : List UInt8)
    (row next : Row) (rest : List Row) :
    BreaksStored faults call content (row :: next :: rest) ↔
      (faults (call + 1) ≠ some 0 ∧ (content ++ row).length + 1 ≤ maxFileSize) ∧
        BreaksStored faults (call + 2) (content ++ row ++ [lineFeed]) (next :: rest) := by
  have later (i : Nat) : call + 2 + (2 * i + 1) = call + (2 * (i + 1) + 1) := by omega
  simp only [BreaksStored, joinLines_cons_cons, length_append, length_cons, length_nil, later]
  constructor
  · rintro ⟨fits, faultless⟩
    refine ⟨⟨faultless 0 (by omega), by omega⟩, by omega, ?_⟩
    intro i bound
    exact faultless (i + 1) (by omega)
  · rintro ⟨⟨first, -⟩, fits, faultless⟩
    refine ⟨by omega, ?_⟩
    intro i bound
    cases i with
    | zero => exact first
    | succ i => exact faultless i (by omega)

/-- A loop that reports no failure leaves the joined rows at the end of the file
exactly when every line break is stored, and never more bytes than that. -/
theorem Appending.writeLoop_content {fd : Nat} {rows : List Row} {inode : Inode}
    (appending : Appending state fd ip inode) (room : inode.content.length ≤ maxFileSize)
    (loop : Text.writeLoop fd faults call state rows = some (next, 0)) :
    ∃ content, Appending next fd ip { inode with content := content } ∧
      content.length ≤ inode.content.length + (joinLines lineFeed rows).length ∧
      (content = inode.content ++ joinLines lineFeed rows ↔
        BreaksStored faults call inode.content rows) := by
  induction rows generalizing call state inode with
  | nil =>
    obtain ⟨rfl, -⟩ := Prod.mk.inj (some.inj loop)
    refine ⟨inode.content, appending, Nat.le_add_right _ _, iff_of_true ?_ ⟨room, ?_⟩⟩
    · exact (append_nil _).symm
    · intro row bound
      exact absurd bound (by simp)
  | cons row rest ih =>
    obtain ⟨afterRow, rowCall, rowAppending⟩ := appending.sysWrite row (faults call)
    rw [Text.writeLoop, rowCall] at loop
    cases ok : (writeCall (faults call) inode.content inode.content.length row).ok with
    | false =>
      rw [ok] at loop
      exact absurd loop (by simp)
    | true =>
      obtain ⟨fits, rowStored⟩ := writeCall_row ok
      rw [rowStored] at rowAppending
      simp only [ok, bind_eq_bind, bind_some, if_true, if_neg (natCast_not_neg _)] at loop
      have rowRoom : (inode.content ++ row).length ≤ maxFileSize := by
        rw [length_append]
        rcases fits with rfl | fits
        · exact room
        · exact fits
      cases rest with
      | nil =>
        obtain ⟨rfl, -⟩ := Prod.mk.inj (some.inj loop)
        refine ⟨_, rowAppending, ?_, ?_⟩
        · rw [joinLines_singleton, length_append]
        rw [joinLines_singleton, BreaksStored, joinLines_singleton, ← length_append]
        refine iff_of_true rfl ⟨rowRoom, ?_⟩
        intro i bound
        exact absurd bound (by simp)
      | cons second rest =>
        obtain ⟨afterBreak, breakCall, breakAppending⟩ :=
          rowAppending.sysWrite [lineFeed] (faults (call + 1))
        simp only [writeBreak, if_neg (cons_ne_nil second rest), breakCall,
          map_some, bind_some] at loop
        rw [writeCall_byte] at breakAppending
        rw [breaksStored_cons_cons, joinLines_cons_cons]
        by_cases stored : faults (call + 1) ≠ some 0 ∧
            (inode.content ++ row).length + 1 ≤ maxFileSize
        · rw [if_pos stored] at breakAppending
          obtain ⟨content, nextAppending, atMost, whole⟩ :=
            ih breakAppending (by simpa [Nat.add_assoc] using stored.2) loop
          refine ⟨content, nextAppending, ?_, ?_⟩
          · simp only [length_append, length_cons, length_nil] at atMost ⊢
            omega
          · rw [and_iff_right stored, ← whole]
            simp
        · rw [if_neg stored] at breakAppending
          obtain ⟨content, nextAppending, atMost, -⟩ := ih breakAppending rowRoom loop
          have shorter : content.length < (inode.content ++
              (row ++ lineFeed :: joinLines lineFeed (second :: rest))).length := by
            simp only [length_append, length_cons] at atMost ⊢
            omega
          refine ⟨content, nextAppending, ?_, iff_of_false ?_ (fun both => stored both.1)⟩
          · simp only [length_append, length_cons] at shorter ⊢
            omega
          · rintro rfl
            exact absurd shorter (Nat.lt_irrefl _)

/-! ## The file that is written to -/

theorem sysWrite_sameNames {bytes : List UInt8}
    (called : sysWrite state fd bytes fault = some (next, code)) :
    SameNames next state ∧ next.cwd = state.cwd := by
  unfold Kernel.sysWrite at called
  split at called
  · obtain ⟨rfl, -⟩ := Prod.mk.inj (some.inj called)
    exact ⟨fun _ => rfl, rfl⟩
  rename_i file _
  split at called
  · obtain ⟨rfl, -⟩ := Prod.mk.inj (some.inj called)
    exact ⟨fun _ => rfl, rfl⟩
  obtain ⟨inode, read, called⟩ := bind_eq_some_iff.mp called
  split at called
  · obtain ⟨rfl, -⟩ := Prod.mk.inj (some.inj called)
    have sameNames : SameNames (state.setInode file.inum { inode with
        content := (writeCall fault inode.content file.off bytes).content }) state := by
      apply SameNames.setInode read <;> rfl
    exact ⟨sameNames, rfl⟩
  · contradiction

/-- The loop changes no name. -/
theorem writeLoop_sameNames {rows : List Row}
    (loop : writeLoop fd faults call state rows = some (next, code)) :
    SameNames next state ∧ next.cwd = state.cwd := by
  induction rows generalizing call state with
  | nil =>
    obtain ⟨rfl, -⟩ := Prod.mk.inj (some.inj loop)
    exact ⟨fun _ => rfl, rfl⟩
  | cons row rest ih =>
    obtain ⟨⟨afterRow, len⟩, rowCall, loop⟩ := bind_eq_some_iff.mp loop
    obtain ⟨rowNames, rowCwd⟩ := sysWrite_sameNames rowCall
    simp only at loop
    split at loop
    · obtain ⟨rfl, -⟩ := Prod.mk.inj (some.inj loop)
      exact ⟨rowNames, rowCwd⟩
    obtain ⟨afterBreak, breakCall, loop⟩ := bind_eq_some_iff.mp loop
    obtain ⟨restNames, restCwd⟩ := ih loop
    unfold writeBreak at breakCall
    split at breakCall
    · obtain rfl := some.inj breakCall
      exact ⟨fun inum => (restNames inum).trans (rowNames inum), restCwd.trans rowCwd⟩
    obtain ⟨⟨after, code⟩, called, rfl⟩ := map_eq_some_iff.mp breakCall
    obtain ⟨breakNames, breakCwd⟩ := sysWrite_sameNames called
    exact ⟨fun inum => ((restNames inum).trans (breakNames inum)).trans (rowNames inum),
      (restCwd.trans breakCwd).trans rowCwd⟩

/-- The bytes of the file a path leads to. -/
def storedAt (state : State) (path : Path) : Option (List UInt8) :=
  ((namei state path).join.bind state.inode?).map Inode.content

/-- Closing the descriptor of a file that has a name leaves its bytes there. -/
theorem Appending.storedAt_sysClose {fd : Nat} {inode : Inode}
    (appending : Appending state fd ip inode) (linked : inode.nlink ≠ 0) {path : Path}
    (named : namei state path = some (some ip)) :
    storedAt (sysClose state fd).1 path = some inode.content := by
  have file : state.file? fd = some (writer ip inode.content.length) := by
    rw [State.file?, Int.toNat_natCast, appending.opened]
    rfl
  rw [sysClose, file]
  have kept : State.iput { state with
      ofile := state.ofile.set (Int.toNat fd) none
      ftableFree := state.ftableFree + 1 } ip = { state with
      ofile := state.ofile.set (Int.toNat fd) none
      ftableFree := state.ftableFree + 1 } := by
    apply iput_eq_self_of
    intro found read noLinks
    obtain rfl := some.inj (appending.read.symm.trans read)
    exact absurd noLinks linked
  simp only [writer, kept, storedAt, namei_withFiles, named, join_some, bind_some]
  exact congrArg (Option.map Inode.content) appending.read

/-- A save that succeeds has opened a new file under the name it was given. -/
theorem textframeWrite_opens {after : State} (wf : state.WellFormed) {text saved : Textframe}
    {filename : Path}
    (called : textframeWrite state faults text filename = some (after, saved, 0)) :
    ∃ opened fd ip, Appending opened fd ip newFile ∧
      namei opened filename = some (some ip) ∧
      saveRows opened faults text fd = some (after, saved, 0) := by
  obtain ⟨⟨removed, code⟩, unlinkCall, called⟩ := bind_eq_some_iff.mp called
  obtain ⟨⟨opened, fd⟩, openCall, called⟩ := bind_eq_some_iff.mp called
  obtain ⟨⟨made, found⟩, createCall, openCall⟩ := bind_eq_some_iff.mp openCall
  cases found with
  | none =>
    obtain ⟨rfl, rfl⟩ := Prod.mk.inj (some.inj openCall)
    exact absurd called (by simp)
  | some ip =>
    obtain ⟨dp, dir, name, enters, parent_eq, rfl⟩ := create_after_unlink wf unlinkCall createCall
    have openCall := some.inj openCall
    rcases openInode_cases (entered removed ip dp newFile dir name) ip with
      ⟨-, failed⟩ | ⟨slot, free, -, succeeded⟩
    · obtain ⟨rfl, rfl⟩ := Prod.mk.inj (failed.symm.trans openCall)
      exact absurd called (by simp)
    obtain ⟨rfl, rfl⟩ := Prod.mk.inj (succeeded.symm.trans openCall)
    have bound := (List.getElem?_eq_some_iff.mp free).1
    refine ⟨{ entered removed ip dp newFile dir name with
      ofile := (entered removed ip dp newFile dir name).ofile.set slot (some (writer ip 0))
      ftableFree := (entered removed ip dp newFile dir name).ftableFree - 1 }, slot, ip,
      ⟨getElem?_set_self bound, enters.inode?_file, rfl⟩, ?_, called⟩
    exact (namei_withFiles _ _ _ filename).trans (enters.namei_entered parent_eq)

/-- A save that returns 0 has stored the rows joined by line feeds, if and only
if they fit in a file and no write of a line break fails before its byte is
stored. -/
theorem textframeWrite_stores_rows_iff {state after : State} (wf : state.WellFormed)
    {faults : Nat → Option Nat} {text saved : Textframe} {filename : Path}
    (called : textframeWrite state faults text filename = some (after, saved, 0)) :
    storedAt after filename = some (joinLines lineFeed text.data) ↔
      (joinLines lineFeed text.data).length ≤ maxFileSize ∧
        ∀ row, row + 1 < text.data.length → faults (2 * row + 1) ≠ some 0 := by
  obtain ⟨opened, fd, ip, appending, named, written⟩ := textframeWrite_opens wf called
  rw [saveRows] at written
  obtain ⟨⟨last, code⟩, loop, written⟩ := bind_eq_some_iff.mp written
  simp only at written
  split at written
  · exact absurd written (by simp)
  obtain rfl : code = 0 := by
    obtain ⟨next, -, loop', -⟩ := appending.writeLoop
    have := Prod.mk.inj (some.inj (loop.symm.trans loop'))
    grind
  obtain ⟨rfl, -⟩ := Prod.mk.inj (some.inj written)
  obtain ⟨content, lastAppending, -, whole⟩ := appending.writeLoop_content (Nat.zero_le _) loop
  obtain ⟨sameNames, cwd_eq⟩ := writeLoop_sameNames loop
  rw [lastAppending.storedAt_sysClose Int.one_ne_zero
    ((sameNames.namei cwd_eq filename).trans named), some.injEq]
  simpa [BreaksStored, newFile] using whole

/-- A text of two rows. -/
def xyRows : Textframe where
  data := [[120], [121]]
  cursorRow := 0
  cursorCol := 0
  maxrowCapacity := 2

theorem save_xyRows :
    ∃ after saved, textframeWrite (twoFiles 100) (fun _ => none) xyRows [97] =
        some (after, saved, 0) ∧
      storedAt after [97] = some [120, lineFeed, 121] := by
  have returns : (textframeWrite (twoFiles 100) (fun _ => none) xyRows [97]).map
      (fun result => result.2.2) = some 0 := by
    decide
  obtain ⟨⟨after, saved, code⟩, called, rfl⟩ := map_eq_some_iff.mp returns
  have stores := textframeWrite_stores_rows_iff twoFiles_wellFormed called
  exact ⟨after, saved, called, stores.mpr ⟨by decide, fun _ _ => nofun⟩⟩

/-- A failed write of the line break goes unnoticed. -/
theorem save_xyRows_without_break :
    (textframeWrite (twoFiles 100) (fun call => if call = 1 then some 0 else none) xyRows
      [97]).map (fun result => (storedAt result.1 [97], result.2.2)) =
        some (some [120, 121], 0) := by
  decide

end XEditor.Text
