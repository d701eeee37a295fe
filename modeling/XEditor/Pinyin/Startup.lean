import XEditor.Lib.Walk
import XEditor.Pinyin.Scanner

/-!
# The loops that read the tables

At the start the glyphs of the Han characters are read from five files and the
pinyin table from one, each until `read` returns 0.  A file that is there comes to
its end, or to the end of the table.  For one that is missing `read` returns -1,
which the loops take for a number of bytes.
-/

namespace XEditor.Pinyin

open List Option Text Walk

/-! ## The source -/

/-- A descriptor: what is left of its file, or nothing for the -1 that `open`
returns for a file that is missing. -/
abbrev Descriptor : Type :=
  Option Row

/-- Source `sys_read`: the result, the bytes that are copied and the descriptor
behind them. -/
def sysRead (f : Descriptor) (n : Int) : Int × Row × Descriptor :=
  match f with
  | none => (-1, [], none)
  | some rest =>
    if n < 0 then (-1, [], some rest)
    else ((min n.toNat rest.length : Nat), rest.take n.toNat, some (rest.drop n.toNat))

/-- The size of `gbk_to_point`. -/
def gbkSize : Int := 320000

/-- A round of the loops of `gbk_point_init`, with the files from the current one
on and the offset `n`. -/
def gbkRound : List Descriptor × Int → Option (List Descriptor × Int)
  | ([], _) => none
  | (f :: files, n) =>
    let (nRead, _, f) := sysRead f (gbkSize - n)
    if nRead = 0 then some (files, n) else some (f :: files, n + nRead)

/-- What decides where the loops of `pinyin_init` go: whether the inner one runs,
the file and the bytes of `cs`. -/
structure PinyinLoop where
  inHans : Bool
  f : Descriptor
  cs : UInt8 × UInt8

/-- A round of the loops of `pinyin_init`. -/
def pinyinRound (loop : PinyinLoop) : Option PinyinLoop :=
  let (nRead, bytes, f) := sysRead loop.f (if loop.inHans then 2 else 1)
  let cs := (bytes.getD 0 loop.cs.1, bytes.getD 1 loop.cs.2)
  if nRead = 0 then if loop.inHans then some { loop with inHans := false } else none
  else if loop.inHans then some ⟨isHan cs.1 && isHan cs.2, f, cs⟩
  else some ⟨cs.1 == colon, f, (cs.1, 0)⟩

/-! ## The glyphs -/

/-- A read from a file that is there returns 0 at its end or for no bytes, and
otherwise takes bytes from it. -/
theorem sysRead_some (rest : Row) {n : Int} (nonneg : 0 ≤ n) :
    ∃ count : Nat, sysRead (some rest) n = (↑count, rest.take n.toNat, some (rest.drop n.toNat)) ∧
      count ≤ n ∧ (rest.drop n.toNat).length + count = rest.length := by
  refine ⟨min n.toNat rest.length, if_neg (by omega), by omega, ?_⟩
  rw [length_drop]
  omega

/-- The offset is inside of the table. -/
def InTable (state : List Descriptor × Int) : Prop :=
  0 ≤ state.2 ∧ state.2 ≤ gbkSize

/-- What is left to do: the bytes that are read raise the offset by less than they
count here. -/
def gbkLeft (state : List Descriptor × Int) : Nat :=
  state.1.foldr (fun f left => 2 * (f.getD []).length + 1 + left) 0 + (state.2 + 1).toNat

/-- A round leaves a missing file where it is, and less to do. -/
theorem gbkRound_cons (f : Descriptor) (files : List Descriptor) {n : Int} (high : n ≤ gbkSize) :
    ∃ next, gbkRound (f :: files, n) = some next ∧ next.2 ≤ gbkSize ∧
      (none ∈ next.1 ↔ none ∈ f :: files) ∧
      (0 ≤ n → gbkLeft next < gbkLeft (f :: files, n) ∧ (f ≠ none → 0 ≤ next.2)) := by
  cases f with
  | none =>
    refine ⟨(none :: files, n + -1), rfl, by dsimp only; omega, Iff.rfl, fun low => ⟨?_, nofun⟩⟩
    dsimp only [gbkLeft]
    omega
  | some rest =>
    obtain ⟨count, read, le, left⟩ := sysRead_some rest (n := gbkSize - n) (by omega)
    simp only [gbkRound, read]
    by_cases empty : (count : Int) = 0
    · refine ⟨(files, n), if_pos empty, high, by simp, fun low => ⟨?_, fun _ => low⟩⟩
      simp only [gbkLeft, foldr_cons]
      omega
    · refine ⟨_, if_neg empty, ?_, by simp, fun low => ⟨?_, fun _ => ?_⟩⟩
      · dsimp only
        omega
      · simp only [gbkLeft, foldr_cons, getD_some]
        omega
      · dsimp only
        omega

section

variable {state : List Descriptor × Int}

/-- Where no file is missing the rounds keep the offset inside of the table. -/
theorem gbkRound_present (present : none ∉ state.1) (inside : InTable state) :
    gbkRound state = none ∨ ∃ next, gbkRound state = some next ∧
      (none ∉ next.1 ∧ InTable next) ∧ gbkLeft next < gbkLeft state := by
  obtain ⟨files, n⟩ := state
  cases files with
  | nil => exact .inl rfl
  | cons f files =>
    obtain ⟨next, round, high, kept, less⟩ := gbkRound_cons f files inside.2
    obtain ⟨smaller, low⟩ := less inside.1
    have isThere : f ≠ none := fun missing => present (missing ▸ mem_cons_self)
    exact .inr ⟨next, round, ⟨mt kept.mp present, low isThere, high⟩, smaller⟩

/-- While a file is missing there is another round. -/
theorem gbkRound_missing (missing : none ∈ state.1) (high : state.2 ≤ gbkSize) :
    ∃ next, gbkRound state = some next ∧ (none ∈ next.1 ∧ next.2 ≤ gbkSize) ∧
      (0 ≤ state.2 → gbkLeft next < gbkLeft state) := by
  obtain ⟨files, n⟩ := state
  cases files with
  | nil => exact absurd missing not_mem_nil
  | cons f files =>
    obtain ⟨next, round, high, kept, less⟩ := gbkRound_cons f files high
    exact ⟨next, round, ⟨kept.mpr missing, high⟩, fun low => (less low).1⟩

theorem gbk_ends (present : none ∉ state.1) (inside : InTable state) : Ends gbkRound state :=
  exists_steps (fun state => none ∉ state.1 ∧ InTable state) _ gbkLeft
    (fun _ holds => gbkRound_present holds.1 holds.2) _ ⟨present, inside⟩

theorem gbk_inTable (present : none ∉ state.1) (inside : InTable state) {rounds : Nat}
    {last : List Descriptor × Int} (walked : steps gbkRound rounds state = some last) :
    InTable last := by
  refine (steps_invariant (fun state => none ∉ state.1 ∧ InTable state)
    (fun here there before round => ?_) ⟨present, inside⟩ walked).2
  rcases gbkRound_present before.1 before.2 with ends | ⟨next, isNext, kept, -⟩
  · exact nomatch ends.symm.trans round
  · rwa [some.inj (round.symm.trans isNext)]

theorem gbk_not_ends (missing : none ∈ state.1) (high : state.2 ≤ gbkSize) :
    ¬ Ends gbkRound state := by
  refine not_ends (fun state => none ∈ state.1 ∧ state.2 ≤ gbkSize) ?_ ⟨missing, high⟩
  rintro state ⟨missing, high⟩
  obtain ⟨next, round, kept, -⟩ := gbkRound_missing missing high
  exact ⟨next, round, kept⟩

/-- With less to do in each round the offset becomes negative. -/
theorem gbk_leaves_table (missing : none ∈ state.1) (high : state.2 ≤ gbkSize) :
    ∃ rounds last, steps gbkRound rounds state = some last ∧ ¬ InTable last := by
  refine exists_steps (fun state => none ∈ state.1 ∧ state.2 ≤ gbkSize) _ gbkLeft ?_ _
    ⟨missing, high⟩
  rintro state ⟨missing, high⟩
  by_cases low : 0 ≤ state.2
  · obtain ⟨next, round, kept, smaller⟩ := gbkRound_missing missing high
    exact .inr ⟨next, round, kept, smaller low⟩
  · exact .inl fun inside => low inside.1

end

/-! ## The pinyin table -/

/-- From a file that is there each round takes bytes, except at its end. -/
theorem pinyin_ends (rest : Row) (cs : UInt8 × UInt8) :
    Ends pinyinRound ⟨false, some rest, cs⟩ := by
  refine exists_steps (fun loop => loop.f ≠ none) _
    (fun loop => 2 * (loop.f.getD []).length + loop.inHans.toNat) ?_ _ (some_ne_none rest)
  rintro ⟨inHans, f, cs⟩ present
  obtain ⟨rest, rfl⟩ := ne_none_iff_exists'.mp present
  obtain ⟨count, read, -, left⟩ :=
    sysRead_some rest (n := if inHans then 2 else 1) (by split <;> decide)
  simp only [pinyinRound, read]
  by_cases empty : (count : Int) = 0
  · rw [if_pos empty]
    cases inHans with
    | false => exact .inl rfl
    | true => exact .inr ⟨_, rfl, present, Nat.lt_succ_self _⟩
  · rw [if_neg empty]
    cases inHans with
    | false =>
      refine .inr ⟨_, rfl, nofun, Nat.lt_of_le_of_lt (Nat.add_le_add_left (Bool.toNat_le _) _) ?_⟩
      rw [getD_some, getD_some]
      omega
    | true =>
      refine .inr ⟨_, rfl, nofun, Nat.lt_of_le_of_lt (Nat.add_le_add_left (Bool.toNat_le _) _) ?_⟩
      rw [getD_some, getD_some]
      omega

/-- With the descriptor -1 the loops never read 0. -/
theorem pinyin_not_ends (loop : PinyinLoop) (missing : loop.f = none) :
    ¬ Ends pinyinRound loop := by
  refine not_ends (fun loop => loop.f = none) ?_ missing
  rintro ⟨inHans, f, cs⟩ rfl
  cases inHans with
  | false => exact ⟨_, rfl, rfl⟩
  | true => exact ⟨_, rfl, rfl⟩

/-- The loops end if and only if the files are there, and the offset into the
glyphs stays inside of the table if and only if the five files of them are. -/
theorem startup_ends_iff (files : List Descriptor) (f : Descriptor) (cs : UInt8 × UInt8) :
    (Ends gbkRound (files, 0) ↔ none ∉ files) ∧
      ((∀ rounds last, steps gbkRound rounds (files, 0) = some last →
        0 ≤ last.2 ∧ last.2 ≤ gbkSize) ↔ none ∉ files) ∧
      (Ends pinyinRound ⟨false, f, cs⟩ ↔ f ≠ none) := by
  have start : InTable (files, 0) := ⟨Int.le_refl 0, show (0 : Int) ≤ gbkSize by decide⟩
  refine ⟨⟨fun ends missing => gbk_not_ends missing start.2 ends,
    fun present => gbk_ends present start⟩, ⟨?_, ?_⟩, ?_, ?_⟩
  · intro inside missing
    obtain ⟨rounds, last, walked, outside⟩ := gbk_leaves_table missing start.2
    exact outside (inside rounds last walked)
  · exact fun present rounds last => gbk_inTable present start
  · intro ends missing
    exact pinyin_not_ends _ missing ends
  · intro present
    obtain ⟨rest, rfl⟩ := ne_none_iff_exists'.mp present
    exact pinyin_ends rest cs

/-- Without the first file of the glyphs the first loop does not end, and its
offset is negative after one round. -/
theorem missing_font_loops :
    let files : List Descriptor := [none, some [], some [], some [], some []]
    ¬ Ends gbkRound (files, 0) ∧ gbkRound (files, 0) = some (files, -1) :=
  ⟨gbk_not_ends mem_cons_self (show (0 : Int) ≤ gbkSize by decide), rfl⟩

end XEditor.Pinyin
