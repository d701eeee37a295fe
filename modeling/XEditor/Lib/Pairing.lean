import Mathlib.Data.List.DropRight
import Mathlib.Algebra.Group.Nat.Even

/-!
# Lists whose marked entries come in pairs

A list over an alphabet with a distinguished set of marked entries is *paired*
when every maximal run of marked entries has even length, so that it reads
uniquely as a sequence of unmarked entries and marked pairs.  Two-byte
character encodings are the intended use.

Pairing is decided by a two-state parity automaton.  The automaton composes
over concatenation, which is what the closure lemmas below use; the
characterization by maximal runs is `paired_iff_runs_even`.
-/

namespace XEditor.Pairing

open List Option

universe u

variable {α : Type u} {mark : α → Bool}

/-! ## The parity automaton -/

/-- Read a list starting from the given parity of the open run.  An unmarked
entry is refused while the open run is odd. -/
def scan (mark : α → Bool) : Bool → List α → Option Bool
  | odd, [] => some odd
  | odd, entry :: rest =>
    if mark entry then scan mark (!odd) rest
    else if odd then none
    else scan mark false rest

/-- Every maximal run of marked entries has even length. -/
def Paired (mark : α → Bool) (entries : List α) : Prop :=
  scan mark false entries = some false

instance (entries : List α) : Decidable (Paired mark entries) :=
  inferInstanceAs (Decidable (scan mark false entries = some false))

/-- Length of the run of marked entries at the end of a list. -/
def markedSuffix (mark : α → Bool) (entries : List α) : Nat :=
  (entries.rtakeWhile mark).length

@[simp]
theorem scan_nil (odd : Bool) : scan mark odd [] = some odd :=
  rfl

variable {entry : α} {entries first second : List α}

theorem scan_cons_marked (marked : mark entry = true) (odd : Bool) (rest : List α) :
    scan mark odd (entry :: rest) = scan mark (!odd) rest := by
  simp [scan, marked]

theorem scan_cons_unmarked (unmarked : mark entry = false) (odd : Bool) (rest : List α) :
    scan mark odd (entry :: rest) = if odd then none else scan mark false rest := by
  simp [scan, unmarked]

/-- The automaton reads a concatenation one part after the other. -/
theorem scan_append (odd : Bool) (first second : List α) :
    scan mark odd (first ++ second) =
      (scan mark odd first).bind fun parity => scan mark parity second := by
  induction first generalizing odd with
  | nil => rfl
  | cons entry rest ih =>
    cases marked : mark entry with
    | true =>
      rw [cons_append, scan_cons_marked marked, scan_cons_marked marked, ih]
    | false =>
      rw [cons_append, scan_cons_unmarked marked, scan_cons_unmarked marked]
      cases odd <;> simp [ih]

@[simp]
theorem markedSuffix_nil : markedSuffix mark [] = 0 := by
  simp [markedSuffix]

theorem markedSuffix_concat_marked (marked : mark entry = true) (entries : List α) :
    markedSuffix mark (entries ++ [entry]) = markedSuffix mark entries + 1 := by
  simp [markedSuffix, rtakeWhile_concat_pos, marked]

theorem markedSuffix_concat_unmarked (unmarked : mark entry = false) (entries : List α) :
    markedSuffix mark (entries ++ [entry]) = 0 := by
  simp [markedSuffix, rtakeWhile_concat_neg, unmarked]

/-- When the automaton accepts, its state is the parity of the open run. -/
theorem scan_eq_some_parity {odd : Bool} (accepted : scan mark false entries = some odd) :
    odd = decide (markedSuffix mark entries % 2 = 1) := by
  induction entries using List.reverseRecOn generalizing odd with
  | nil =>
    simp only [scan_nil, some.injEq] at accepted
    simp [← accepted]
  | append_singleton entries entry ih =>
    rw [scan_append, bind_eq_some_iff] at accepted
    obtain ⟨parity, before, last⟩ := accepted
    have parity_eq := ih before
    cases marked : mark entry with
    | true =>
      rw [scan_cons_marked marked, scan_nil, some.injEq] at last
      rw [← last, parity_eq, markedSuffix_concat_marked marked]
      by_cases even : markedSuffix mark entries % 2 = 1
      · have : (markedSuffix mark entries + 1) % 2 ≠ 1 := by omega
        simp [even, this]
      · have : (markedSuffix mark entries + 1) % 2 = 1 := by omega
        simp [even, this]
    | false =>
      rw [scan_cons_unmarked marked] at last
      rw [markedSuffix_concat_unmarked marked]
      cases parity with
      | true => simp at last
      | false =>
        simp only [Bool.false_eq_true, if_false, scan_nil, some.injEq] at last
        simp [← last]

/-! ## Closure properties -/

@[simp]
theorem paired_nil : Paired mark [] :=
  rfl

theorem paired_cons_unmarked_iff (unmarked : mark entry = false) (rest : List α) :
    Paired mark (entry :: rest) ↔ Paired mark rest := by
  simp [Paired, scan_cons_unmarked unmarked]

theorem paired_of_unmarked (unmarked : ∀ entry ∈ entries, mark entry = false) :
    Paired mark entries := by
  induction entries with
  | nil => exact paired_nil
  | cons entry rest ih =>
    rw [paired_cons_unmarked_iff (unmarked entry mem_cons_self)]
    exact ih fun later isIn => unmarked later (mem_cons_of_mem entry isIn)

theorem paired_cons_cons_marked_iff {first second : α} (firstMarked : mark first = true)
    (secondMarked : mark second = true) (rest : List α) :
    Paired mark (first :: second :: rest) ↔ Paired mark rest := by
  simp [Paired, scan_cons_marked firstMarked, scan_cons_marked secondMarked]

/-- Behind a paired list, pairing is decided by the remainder alone. -/
theorem Paired.append_iff (paired : Paired mark first) (second : List α) :
    Paired mark (first ++ second) ↔ Paired mark second := by
  unfold Paired at paired ⊢
  rw [scan_append, paired, bind_some]

theorem Paired.append (firstPaired : Paired mark first) (secondPaired : Paired mark second) :
    Paired mark (first ++ second) :=
  (firstPaired.append_iff second).mpr secondPaired

/-- A paired list ends in an even run. -/
theorem Paired.markedSuffix_even (paired : Paired mark entries) :
    markedSuffix mark entries % 2 = 0 := by
  have parity := scan_eq_some_parity paired
  simp only [Bool.false_eq, decide_eq_false_iff_not] at parity
  omega

section

variable (paired : Paired mark (first ++ second))
include paired

/-- A prefix of a paired list is paired when its own last run is even. -/
theorem Paired.of_append_left (even : markedSuffix mark first % 2 = 0) : Paired mark first := by
  unfold Paired at paired
  rw [scan_append, bind_eq_some_iff] at paired
  obtain ⟨parity, accepted, -⟩ := paired
  have parity_eq := scan_eq_some_parity accepted
  rw [Paired, accepted, parity_eq]
  simp [even]

theorem Paired.of_append_right (firstPaired : Paired mark first) : Paired mark second :=
  (firstPaired.append_iff second).mp paired

/-- Cutting a paired list behind an odd run cuts a marked pair in two: the
entries on both sides of the cut are marked, and either of them restores
pairing. -/
theorem Paired.split_pair (odd : markedSuffix mark first % 2 = 1) :
    ∃ before left right after,
      first = before ++ [left] ∧ second = right :: after ∧
        mark left = true ∧ mark right = true ∧
        Paired mark before ∧ Paired mark after := by
  rcases eq_nil_or_concat' first with rfl | ⟨before, left, rfl⟩
  · simp at odd
  have leftMarked : mark left = true := by
    by_contra unmarked
    rw [Bool.not_eq_true] at unmarked
    simp [markedSuffix_concat_unmarked unmarked] at odd
  rw [markedSuffix_concat_marked leftMarked] at odd
  rw [append_assoc] at paired
  have beforePaired : Paired mark before := paired.of_append_left (by omega)
  have restPaired : Paired mark ([left] ++ second) := paired.of_append_right beforePaired
  cases second with
  | nil => simp [Paired, scan, leftMarked] at restPaired
  | cons right after =>
    have rightMarked : mark right = true := by
      by_contra unmarked
      simp [Paired, scan, leftMarked, unmarked] at restPaired
    refine ⟨before, left, right, after, rfl, rfl, leftMarked, rightMarked, beforePaired, ?_⟩
    exact (paired_cons_cons_marked_iff leftMarked rightMarked after).mp restPaired

end

/-- A marked entry at the front of a paired list has its partner behind it. -/
theorem Paired.cons_marked {rest : List α} (paired : Paired mark (entry :: rest))
    (marked : mark entry = true) :
    ∃ partner after, rest = partner :: after ∧ mark partner = true ∧ Paired mark after := by
  have odd : markedSuffix mark [entry] % 2 = 1 := by
    have single := markedSuffix_concat_marked marked []
    rw [nil_append, markedSuffix_nil] at single
    rw [single]
  have split : Paired mark ([entry] ++ rest) := paired
  obtain ⟨-, -, partner, after, -, rest_eq, -, partnerMarked, -, afterPaired⟩ :=
    split.split_pair odd
  exact ⟨partner, after, rest_eq, partnerMarked, afterPaired⟩

/-! ## Maximal runs -/

/-- `run` is a maximal run of marked entries of `before ++ run ++ after`. -/
structure MaximalRun (mark : α → Bool) (before run after : List α) : Prop where
  marked : ∀ entry ∈ run, mark entry = true
  left : ∀ entry ∈ before.getLast?, mark entry = false
  right : ∀ entry ∈ after.head?, mark entry = false

variable {run before after : List α}

theorem scan_marked (marked : ∀ entry ∈ run, mark entry = true) (odd : Bool) :
    scan mark odd run = some (odd ^^ decide (run.length % 2 = 1)) := by
  induction run generalizing odd with
  | nil => simp
  | cons entry rest ih =>
    rw [scan_cons_marked (marked entry mem_cons_self),
      ih fun other mem => marked other (mem_cons_of_mem entry mem)]
    by_cases even : rest.length % 2 = 1
    · have : (rest.length + 1) % 2 ≠ 1 := by omega
      cases odd <;> simp [even, this]
    · have : (rest.length + 1) % 2 = 1 := by omega
      cases odd <;> simp [even, this]

theorem scan_false_of_head_unmarked {odd : Bool}
    (accepted : scan mark odd (before ++ after) = some false)
    (left : ∀ entry ∈ before.getLast?, mark entry = false) (nonempty : before ≠ []) :
    scan mark odd before = some false := by
  rcases eq_nil_or_concat' before with rfl | ⟨start, entry, rfl⟩
  · exact absurd rfl nonempty
  have unmarked : mark entry = false := left entry (by simp)
  rw [scan_append, bind_eq_some_iff] at accepted
  obtain ⟨parity, beforeAccepted, -⟩ := accepted
  rw [scan_append, bind_eq_some_iff] at beforeAccepted
  obtain ⟨startParity, startAccepted, last⟩ := beforeAccepted
  rw [scan_append, startAccepted, bind_some]
  rw [scan_cons_unmarked unmarked] at last ⊢
  cases startParity with
  | true => simp at last
  | false => simp

/-- An odd run is refused both at the end of the list and before an unmarked
entry. -/
theorem Paired.even_run (paired : Paired mark (before ++ run ++ after))
    (maximal : MaximalRun mark before run after) : Even run.length := by
  rw [append_assoc] at paired
  have beforePaired : Paired mark before := by
    by_cases empty : before = []
    · subst empty
      exact paired_nil
    · exact scan_false_of_head_unmarked paired maximal.left empty
  have rest : Paired mark (run ++ after) := paired.of_append_right beforePaired
  unfold Paired at rest
  rw [scan_append, scan_marked maximal.marked] at rest
  rw [Nat.even_iff]
  by_contra notEven
  have odd : run.length % 2 = 1 := by omega
  cases after with
  | nil => simp [odd] at rest
  | cons entry after =>
    have unmarked := maximal.right entry (by simp)
    simp [odd, scan_cons_unmarked unmarked] at rest

/-- A list starts with a run that is as long as possible. -/
theorem exists_first_run (mark : α → Bool) (entries : List α) :
    ∃ run after, entries = run ++ after ∧ MaximalRun mark [] run after := by
  refine ⟨entries.takeWhile mark, entries.dropWhile mark,
    takeWhile_append_dropWhile.symm, ?_, by simp, ?_⟩
  · intro entry mem
    exact mem_takeWhile_imp mem
  intro entry mem
  have := head?_dropWhile_not mark entries
  rw [mem_def] at mem
  simpa [mem] using this

/-- A run stays maximal behind an unmarked entry. -/
theorem MaximalRun.behind (maximal : MaximalRun mark before run after)
    (unmarked : mark entry = false) (front : List α) :
    MaximalRun mark (front ++ entry :: before) run after := by
  refine ⟨maximal.marked, ?_, maximal.right⟩
  intro last mem
  rcases eq_nil_or_concat' before with rfl | ⟨start, final, rfl⟩
  · simp at mem
    exact mem ▸ unmarked
  · rw [← cons_append, ← append_assoc, getLast?_concat] at mem
    exact maximal.left last (by simpa using mem)

/-- The parity automaton accepts exactly the lists in which every maximal run
of marked entries has even length. -/
theorem paired_iff_runs_even (entries : List α) :
    Paired mark entries ↔
      ∀ before run after, entries = before ++ run ++ after →
        MaximalRun mark before run after → Even run.length := by
  constructor
  · rintro paired before run after rfl maximal
    exact paired.even_run maximal
  intro runsEven
  induction h : entries.length using Nat.strong_induction_on generalizing entries with
  | _ n ih =>
    subst h
    obtain ⟨run, after, rfl, first⟩ := exists_first_run mark entries
    have even : Even run.length := runsEven [] run after (by simp) first
    have runPaired : Paired mark run := by
      rw [Paired, scan_marked first.marked]
      simp [Nat.even_iff.mp even]
    refine runPaired.append ?_
    cases after with
    | nil => exact paired_nil
    | cons entry rest =>
      have unmarked := first.right entry (by simp)
      rw [paired_cons_unmarked_iff unmarked]
      refine ih rest.length (by simp; omega) rest ?_ rfl
      intro before other after restEq maximal
      exact runsEven (run ++ entry :: before) other after (by simp [restEq])
        (maximal.behind unmarked run)

end XEditor.Pairing
