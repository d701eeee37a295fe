import XEditor.Kernel.Syscall

/-!
# Writing to regular files

`writei` and the chunked loop of `filewrite` on the bytes of a regular file.
Besides the failures of the kernel itself, a call can be made to fail after
storing some of its bytes, so that statements can range over every outcome of
the calls.
-/

namespace XEditor.Kernel

open List

/-- Source `MAXFILE * BSIZE`. -/
def maxFileSize : Nat := 252 * 512

/-- The most bytes `filewrite` hands to `writei` at once. -/
def maxWrite : Nat := (10 - 1 - 1 - 2) / 2 * 512

/-- Source `writei` for a regular file; `none` is the return value -1. -/
def writei (content : List UInt8) (off : Nat) (src : List UInt8) : Option (List UInt8) :=
  if off > content.length then none
  else if off + src.length > maxFileSize then none
  else some (content.take off ++ src ++ content.drop (off + src.length))

/-- The bytes of a file, the offset of its descriptor and whether a call has
written all it was asked to. -/
structure Written where
  content : List UInt8
  off : Nat
  ok : Bool
  deriving DecidableEq, Repr

/-- The loop of `filewrite`; every iteration takes at least one byte. -/
def filewriteLoop : (fuel : Nat) → (content : List UInt8) → (off : Nat) →
    (bytes : List UInt8) → Written
  | 0, content, off, _ => ⟨content, off, true⟩
  | fuel + 1, content, off, bytes =>
    if bytes = [] then ⟨content, off, true⟩
    else
      match writei content off (bytes.take maxWrite) with
      | none => ⟨content, off, false⟩
      | some content =>
        filewriteLoop fuel content (off + (bytes.take maxWrite).length) (bytes.drop maxWrite)

/-- Source `filewrite` for a regular file. -/
def filewrite (content : List UInt8) (off : Nat) (bytes : List UInt8) : Written :=
  filewriteLoop bytes.length content off bytes

/-- One call of `write`.  With a fault it fails after it has been given only the
first bytes. -/
def writeCall (fault : Option Nat) (content : List UInt8) (off : Nat) (bytes : List UInt8) :
    Written :=
  match fault with
  | none => filewrite content off bytes
  | some stored => { filewrite content off (bytes.take stored) with ok := false }

/-- Source `sys_write` on a regular file.  Other inodes are not modelled. -/
def sysWrite (state : State) (fd : Int) (bytes : List UInt8) (fault : Option Nat) :
    Option (State × Int) :=
  match state.file? fd with
  | none => some (state, -1)
  | some file =>
    if file.writable = false then some (state, -1)
    else do
      let inode ← state.inode? file.inum
      if inode.type = .file then
        let written := writeCall fault inode.content file.off bytes
        some ({ state.setInode file.inum { inode with content := written.content } with
          ofile := state.ofile.set fd.toNat (some { file with off := written.off }) },
          if written.ok then bytes.length else -1)
      else none

/-! ## Appending -/

theorem writei_end (content src : List UInt8) :
    writei content content.length src =
      if content.length + src.length ≤ maxFileSize then some (content ++ src) else none := by
  rw [writei, if_neg (Nat.lt_irrefl _), take_length, drop_eq_nil_of_le (by omega), append_nil]
  by_cases fits : content.length + src.length ≤ maxFileSize
  · rw [if_pos fits, if_neg (by omega)]
  · rw [if_neg fits, if_pos (by omega)]

/-- A file after bytes have been appended, with the offset at its end. -/
def appended (content bytes : List UInt8) (ok : Bool) : Written where
  content := content ++ bytes
  off := (content ++ bytes).length
  ok := ok

theorem appended_append (content first second : List UInt8) (ok : Bool) :
    appended (content ++ first) second ok = appended content (first ++ second) ok := by
  rw [appended, appended, append_assoc]

theorem appended_nil (content : List UInt8) (ok : Bool) :
    appended content [] ok = ⟨content, content.length, ok⟩ := by
  rw [appended, append_nil]

section

variable {fuel : Nat} {content bytes : List UInt8} (enough : bytes.length ≤ fuel)
include enough

/-- Bytes that fit are appended. -/
theorem filewriteLoop_end (fits : bytes = [] ∨ content.length + bytes.length ≤ maxFileSize) :
    filewriteLoop fuel content content.length bytes = appended content bytes true := by
  induction fuel generalizing content bytes with
  | zero =>
    obtain rfl := length_eq_zero_iff.mp (Nat.le_zero.mp enough)
    rw [filewriteLoop, appended_nil]
  | succ fuel ih =>
    rw [filewriteLoop]
    split
    · rename_i empty
      rw [empty, appended_nil]
    rename_i nonempty
    have width : maxWrite = 1536 := rfl
    have total := fits.resolve_left nonempty
    have chunk : content.length + (bytes.take maxWrite).length ≤ maxFileSize := by
      rw [length_take]
      omega
    have rest : filewriteLoop fuel (content ++ bytes.take maxWrite)
        (content ++ bytes.take maxWrite).length (bytes.drop maxWrite) =
          appended (content ++ bytes.take maxWrite) (bytes.drop maxWrite) true := by
      apply ih
      · rw [length_drop]
        omega
      · rw [length_append, length_take, length_drop]
        omega
    rw [writei_end, if_pos chunk, ← length_append]
    simp only
    rw [rest, appended_append, take_append_drop]

/-- Of bytes that do not fit only whole chunks are appended. -/
theorem filewriteLoop_end_full (nonempty : bytes ≠ [])
    (full : maxFileSize < content.length + bytes.length) :
    ∃ stored < bytes.length, filewriteLoop fuel content content.length bytes =
      appended content (bytes.take stored) false := by
  induction fuel generalizing content bytes with
  | zero => exact absurd (length_eq_zero_iff.mp (Nat.le_zero.mp enough)) nonempty
  | succ fuel ih =>
    have positive := length_pos_iff.mpr nonempty
    have width : maxWrite = 1536 := rfl
    rw [filewriteLoop, if_neg nonempty, writei_end]
    by_cases chunk : content.length + (bytes.take maxWrite).length ≤ maxFileSize
    · have longer : maxWrite < bytes.length := by
        rw [length_take] at chunk
        omega
      have rest : ∃ stored < (bytes.drop maxWrite).length,
          filewriteLoop fuel (content ++ bytes.take maxWrite)
            (content ++ bytes.take maxWrite).length (bytes.drop maxWrite) =
          appended (content ++ bytes.take maxWrite) ((bytes.drop maxWrite).take stored)
            false := by
        apply ih
        · rw [length_drop]
          omega
        · rw [ne_eq, drop_eq_nil_iff]
          omega
        · rw [length_append, length_take, length_drop]
          omega
      obtain ⟨stored, stored_lt, rest⟩ := rest
      rw [length_drop] at stored_lt
      refine ⟨maxWrite + stored, by omega, ?_⟩
      rw [if_pos chunk, ← length_append]
      simp only
      rw [rest, appended_append, ← take_add]
    · refine ⟨0, positive, ?_⟩
      rw [if_neg chunk, take_zero, appended_nil]

end

/-- At the end of a file `filewrite` appends all its bytes or, failing, some of
them. -/
theorem filewrite_end (content bytes : List UInt8) :
    (bytes = [] ∨ content.length + bytes.length ≤ maxFileSize) ∧
      filewrite content content.length bytes = appended content bytes true ∨
    ∃ stored, filewrite content content.length bytes =
      appended content (bytes.take stored) false := by
  by_cases fits : bytes = [] ∨ content.length + bytes.length ≤ maxFileSize
  · exact .inl ⟨fits, filewriteLoop_end (Nat.le_refl _) fits⟩
  · rw [not_or, Nat.not_le] at fits
    obtain ⟨stored, -, result⟩ := filewriteLoop_end_full (Nat.le_refl _) fits.1 fits.2
    exact .inr ⟨stored, result⟩

variable (fault : Option Nat) (content bytes : List UInt8)

/-- So does a call of `write`, with or without a fault. -/
theorem writeCall_end :
    fault = none ∧ (bytes = [] ∨ content.length + bytes.length ≤ maxFileSize) ∧
      writeCall fault content content.length bytes = appended content bytes true ∨
    ∃ stored, writeCall fault content content.length bytes =
      appended content (bytes.take stored) false := by
  cases fault with
  | none =>
    rcases filewrite_end content bytes with ⟨fits, all⟩ | part
    · exact .inl ⟨rfl, fits, all⟩
    · exact .inr part
  | some limit =>
    right
    rw [writeCall]
    rcases filewrite_end content (bytes.take limit) with ⟨-, all⟩ | ⟨stored, part⟩
    · exact ⟨limit, by rw [all]; rfl⟩
    · exact ⟨min stored limit, by rw [part, take_take]; rfl⟩

/-- The offset stays at the end of the file. -/
theorem writeCall_end_off :
    (writeCall fault content content.length bytes).off =
      (writeCall fault content content.length bytes).content.length := by
  rcases writeCall_end fault content bytes with ⟨-, -, all⟩ | ⟨stored, part⟩
  · rw [all]
    rfl
  · rw [part]
    rfl

end XEditor.Kernel
