import Mathlib.Data.Finset.Card

/-!
# A cache with a fixed number of lines

A line holds a value, under a key once it has been used.  The lines are kept in
the order of their last use, the most recent one first, and no key occurs twice.
A line is recycled by looking for a suitable one from the other end.
-/

namespace XEditor

open List Option

/-- The lines of a cache, the most recently used first. -/
structure Cache (κ ν : Type*) (capacity : Nat) where
  lines : List (Option κ × ν)
  length_lines : lines.length = capacity
  nodup : (lines.filterMap Prod.fst).Nodup

namespace Cache

variable {κ ν : Type*} {capacity : Nat}

section

variable {α : Type*}

/-- Replace the last element that is suitable. -/
def replaceLast (suitable : α → Bool) (change : α → α) : List α → Option (List α)
  | [] => none
  | element :: rest =>
    match replaceLast suitable change rest with
    | some replaced => some (element :: replaced)
    | none => if suitable element then some (change element :: rest) else none

variable {suitable : α → Bool} {change : α → α}

theorem replaceLast_eq_none_iff {list : List α} :
    replaceLast suitable change list = none ↔ ∀ element ∈ list, suitable element = false := by
  induction list with
  | nil => simp [replaceLast]
  | cons element rest ih =>
    rw [replaceLast, forall_mem_cons]
    cases replaced : replaceLast suitable change rest with
    | some _ =>
      rw [replaced] at ih
      simp only [reduceCtorEq, false_iff] at ih ⊢
      exact fun all => ih all.2
    | none =>
      rw [← ih, replaced]
      cases suitable element <;> simp

theorem replaceLast_eq_some {list replaced : List α}
    (eq : replaceLast suitable change list = some replaced) :
    ∃ before victim later, list = before ++ victim :: later ∧ suitable victim = true ∧
      replaced = before ++ change victim :: later := by
  induction list generalizing replaced with
  | nil => cases eq
  | cons element rest ih =>
    rw [replaceLast] at eq
    cases inner : replaceLast suitable change rest with
    | some replaced' =>
      rw [inner, some.injEq] at eq
      obtain ⟨before, victim, later, split, good, shape⟩ := ih inner
      exact ⟨element :: before, victim, later, by rw [split]; rfl, good, by
        rw [← eq, shape]; rfl⟩
    | none =>
      rw [inner] at eq
      obtain ⟨good, eq⟩ := ite_none_right_eq_some.mp eq
      exact ⟨[], element, rest, rfl, good, (some.inj eq).symm⟩

end

variable [DecidableEq κ]

/-- The value under a key. -/
def get? (cache : Cache κ ν capacity) (key : κ) : Option ν :=
  (cache.lines.find? fun line => line.1 = some key).map Prod.snd

variable {cache recycled : Cache κ ν capacity} {key : κ} {change : ν → ν} {line : Option κ × ν}
  {suitable : ν → Bool}

variable {value : ν}

theorem get?_eq_some_iff : cache.get? key = some value ↔ (some key, value) ∈ cache.lines := by
  have nodup := cache.nodup
  unfold get?
  generalize cache.lines = lines at nodup ⊢
  induction lines with
  | nil => simp
  | cons line rest ih =>
    obtain ⟨lineKey, lineValue⟩ := line
    by_cases same : lineKey = some key
    · subst same
      have absent : (some key, value) ∉ rest := fun isLine =>
        (nodup_cons.mp nodup).1 (mem_filterMap.mpr ⟨_, isLine, rfl⟩)
      rw [List.find?_cons_of_pos (by simp), map_some, some.injEq, mem_cons, Prod.mk.injEq]
      constructor
      · exact fun eq => .inl ⟨rfl, eq.symm⟩
      · rintro (⟨-, eq⟩ | isLine)
        · exact eq.symm
        · exact absurd isLine absent
    · have nodup : (rest.filterMap Prod.fst).Nodup := by
        cases lineKey with
        | none => exact nodup
        | some _ => exact (nodup_cons.mp nodup).2
      rw [List.find?_cons_of_neg (by simpa using same), mem_cons]
      refine (ih nodup).trans ?_
      constructor
      · exact .inr
      · rintro (eq | isLine)
        · exact absurd (congrArg Prod.fst eq).symm same
        · exact isLine

theorem get?_eq_none_iff : cache.get? key = none ↔ ∀ value, (some key, value) ∉ cache.lines := by
  rw [eq_none_iff_forall_ne_some]
  exact forall_congr' fun value => not_congr get?_eq_some_iff

/-- Two caches with the same lines under keys answer alike. -/
theorem get?_congr {cache cache' : Cache κ ν capacity}
    (same : ∀ value, (some key, value) ∈ cache.lines ↔ (some key, value) ∈ cache'.lines) :
    cache.get? key = cache'.get? key := by
  ext value
  rw [get?_eq_some_iff, get?_eq_some_iff]
  exact same value

/-! ## Changing a line -/

/-- Change the value under a key. -/
def modify (cache : Cache κ ν capacity) (key : κ) (change : ν → ν) : Cache κ ν capacity where
  lines := cache.lines.map fun line =>
    if line.1 = some key then (line.1, change line.2) else line
  length_lines := by rw [length_map, cache.length_lines]
  nodup := by
    have keys (line : Option κ × ν) :
        (if line.1 = some key then (line.1, change line.2) else line).1 = line.1 := by
      split <;> rfl
    rw [filterMap_map]
    simpa [Function.comp_def, keys] using cache.nodup

theorem mem_lines_modify :
    line ∈ (cache.modify key change).lines ↔
      ∃ old ∈ cache.lines, line = if old.1 = some key then (old.1, change old.2) else old := by
  simp only [modify, List.mem_map, eq_comm]

theorem get?_modify (cache : Cache κ ν capacity) (key other : κ) (change : ν → ν) :
    (cache.modify key change).get? other =
      if other = key then (cache.get? other).map change else cache.get? other := by
  ext value
  rw [get?_eq_some_iff, mem_lines_modify]
  by_cases same : other = key
  · subst same
    rw [if_pos rfl, map_eq_some_iff]
    constructor
    · rintro ⟨⟨oldKey, old⟩, isLine, eq⟩
      by_cases found : oldKey = some other
      · subst found
        rw [if_pos rfl, Prod.mk.injEq] at eq
        exact ⟨old, get?_eq_some_iff.mpr isLine, eq.2.symm⟩
      · rw [if_neg found, Prod.mk.injEq] at eq
        exact absurd eq.1.symm found
    · rintro ⟨old, isOld, rfl⟩
      exact ⟨_, get?_eq_some_iff.mp isOld, by simp⟩
  · rw [if_neg same, get?_eq_some_iff]
    constructor
    · rintro ⟨⟨oldKey, old⟩, isLine, eq⟩
      by_cases found : oldKey = some key
      · rw [if_pos found, found, Prod.mk.injEq, some.injEq] at eq
        exact absurd eq.1 same
      · rw [if_neg found] at eq
        exact eq ▸ isLine
    · intro isLine
      exact ⟨_, isLine, by simp [same]⟩

theorem mem_lines_modify_none (isLine : (none, value) ∈ (cache.modify key change).lines) :
    (none, value) ∈ cache.lines := by
  obtain ⟨⟨oldKey, old⟩, isOld, eq⟩ := mem_lines_modify.mp isLine
  split at eq
  · rename_i found
    rw [found] at eq
    cases eq
  · exact eq ▸ isOld

/-! ## Moving a line to the front -/

/-- Make a line the most recently used one. -/
def touch (cache : Cache κ ν capacity) (key : κ) : Cache κ ν capacity :=
  have perm : (cache.lines.filter (fun line => line.1 = some key) ++
      cache.lines.filter fun line => !decide (line.1 = some key)).Perm cache.lines :=
    filter_append_perm _ _
  { lines := cache.lines.filter (fun line => line.1 = some key) ++
      cache.lines.filter fun line => !decide (line.1 = some key)
    length_lines := by rw [perm.length_eq, cache.length_lines]
    nodup := ((perm.filterMap _).nodup_iff).mpr cache.nodup }

@[simp]
theorem mem_lines_touch : line ∈ (cache.touch key).lines ↔ line ∈ cache.lines :=
  (filter_append_perm (fun line : Option κ × ν => decide (line.1 = some key))
    cache.lines).mem_iff

@[simp]
theorem get?_touch (cache : Cache κ ν capacity) (key other : κ) :
    (cache.touch key).get? other = cache.get? other :=
  get?_congr fun _ => mem_lines_touch

/-! ## Recycling a line -/

/-- The last suitable line gets a new key, and its value is changed. -/
def recycle (cache : Cache κ ν capacity) (suitable : ν → Bool) (key : κ) (change : ν → ν)
    (absent : cache.get? key = none) : Option (Cache κ ν capacity) :=
  match eq : replaceLast (fun line => suitable line.2) (fun line => (some key, change line.2))
      cache.lines with
  | none => none
  | some lines =>
    some
      { lines
        length_lines := by
          obtain ⟨before, victim, later, split, -, rfl⟩ := replaceLast_eq_some eq
          rw [← cache.length_lines, split]
          simp
        nodup := by
          obtain ⟨before, victim, later, split, -, rfl⟩ := replaceLast_eq_some eq
          have nodup := cache.nodup
          have fresh : key ∉ cache.lines.filterMap Prod.fst := fun isKey => by
            obtain ⟨⟨lineKey, value⟩, isLine, rfl⟩ := mem_filterMap.mp isKey
            exact get?_eq_none_iff.mp absent value isLine
          rw [split, filterMap_append, filterMap_cons] at nodup fresh
          rw [filterMap_append, filterMap_cons]
          cases victimKey : victim.1 with
          | none =>
            rw [victimKey] at nodup fresh
            exact (nodup_middle).mpr (nodup_cons.mpr ⟨fresh, nodup⟩)
          | some old =>
            rw [victimKey] at nodup fresh
            have rest := (nodup_cons.mp (nodup_middle.mp nodup)).2
            refine (nodup_middle).mpr (nodup_cons.mpr ⟨fun isKey => fresh ?_, rest⟩)
            rcases mem_append.mp isKey with isKey | isKey
            · exact mem_append_left _ isKey
            · exact mem_append_right _ (mem_cons_of_mem _ isKey) }

section

variable {absent : cache.get? key = none}

theorem recycle_eq_some (eq : cache.recycle suitable key change absent = some recycled) :
    ∃ before victim later, cache.lines = before ++ victim :: later ∧ suitable victim.2 = true ∧
      recycled.lines = before ++ (some key, change victim.2) :: later := by
  unfold recycle at eq
  split at eq
  · cases eq
  · rename_i lines replaced
    cases eq
    exact replaceLast_eq_some replaced

theorem recycle_ne_none (isLine : line ∈ cache.lines) (good : suitable line.2 = true) :
    cache.recycle suitable key change absent ≠ none := by
  unfold recycle
  split
  · rename_i eq
    exact absurd good (by simp [replaceLast_eq_none_iff.mp eq line isLine])
  · exact some_ne_none _

theorem get?_recycle_self (eq : cache.recycle suitable key change absent = some recycled) :
    ∃ old, recycled.get? key = some (change old) := by
  obtain ⟨before, victim, later, -, -, lines⟩ := recycle_eq_some eq
  refine ⟨victim.2, ?_⟩
  rw [get?_eq_some_iff, lines]
  simp

/-- Another key keeps its line, or its line was suitable. -/
theorem get?_recycle_of_ne {key other : κ} {absent : cache.get? key = none}
    (eq : cache.recycle suitable key change absent = some recycled) (different : other ≠ key) :
    recycled.get? other = cache.get? other ∨
      ∃ old, cache.get? other = some old ∧ suitable old = true ∧ recycled.get? other = none := by
  obtain ⟨before, victim, later, split, good, lines⟩ := recycle_eq_some eq
  by_cases isVictim : victim.1 = some other
  · right
    obtain ⟨victimKey, old⟩ := victim
    cases isVictim
    refine ⟨old, get?_eq_some_iff.mpr (by rw [split]; simp), good, ?_⟩
    rw [get?_eq_none_iff, lines]
    intro again isLine
    have nodup := cache.nodup
    rw [split, filterMap_append] at nodup
    have absent := (nodup_cons.mp (nodup_middle.mp nodup)).1
    rw [← filterMap_append] at absent
    refine absent (mem_filterMap.mpr ⟨(some other, again), ?_, rfl⟩)
    rcases mem_append.mp isLine with isLine | isLine
    · exact mem_append_left _ isLine
    · rcases mem_cons.mp isLine with isNew | isLine
      · exact absurd (some.inj (congrArg Prod.fst isNew)) different
      · exact mem_append_right _ isLine
  · left
    refine get?_congr fun again => ?_
    rw [lines, split, mem_append, mem_append, mem_cons, mem_cons]
    have notNew : (some other, again) ≠ (some key, change victim.2) := fun same =>
      different (some.inj (congrArg Prod.fst same))
    have notVictim : (some other, again) ≠ victim := fun same =>
      isVictim (congrArg Prod.fst same).symm
    simp only [notNew, notVictim, false_or]

theorem mem_lines_recycle_none (eq : cache.recycle suitable key change absent = some recycled)
    (isLine : (none, value) ∈ recycled.lines) : (none, value) ∈ cache.lines := by
  obtain ⟨before, victim, later, split, -, lines⟩ := recycle_eq_some eq
  rw [lines, mem_append, mem_cons] at isLine
  rw [split, mem_append, mem_cons]
  rcases isLine with isLine | isNew | isLine
  · exact .inl isLine
  · cases isNew
  · exact .inr (.inr isLine)

end

/-! ## Counting lines -/

/-- The keys whose value has a property. -/
def keysWhere (cache : Cache κ ν capacity) (property : ν → Bool) : Finset κ :=
  (cache.lines.filterMap fun line => if property line.2 then line.1 else none).toFinset

theorem mem_keysWhere {property : ν → Bool} :
    key ∈ cache.keysWhere property ↔
      ∃ value, cache.get? key = some value ∧ property value = true := by
  rw [keysWhere, List.mem_toFinset, mem_filterMap]
  constructor
  · rintro ⟨⟨lineKey, value⟩, isLine, eq⟩
    obtain ⟨holds, rfl⟩ := ite_none_right_eq_some.mp eq
    exact ⟨value, get?_eq_some_iff.mpr isLine, holds⟩
  · rintro ⟨value, isValue, holds⟩
    exact ⟨_, get?_eq_some_iff.mp isValue, by simp [holds]⟩

/-- If fewer keys than lines have a property and unused lines never do, some line
does not have it. -/
theorem exists_line_of_card_lt {property : ν → Bool}
    (unused : ∀ value, (none, value) ∈ cache.lines → property value = false)
    (few : (cache.keysWhere property).card < capacity) :
    ∃ line ∈ cache.lines, property line.2 = false := by
  by_contra none
  have all : ∀ line ∈ cache.lines, property line.2 = true := fun line isLine => by
    by_contra fails
    exact none ⟨line, isLine, by simpa using fails⟩
  have keyed : ∀ line ∈ cache.lines, line.1 ≠ Option.none := by
    rintro ⟨lineKey, value⟩ isLine rfl
    exact absurd (unused value isLine) (by simp [all _ isLine])
  have same : (cache.lines.filterMap fun line => if property line.2 then line.1 else Option.none) =
      cache.lines.filterMap Prod.fst :=
    filterMap_congr fun line isLine => by rw [if_pos (all line isLine)]
  have length : (cache.lines.filterMap Prod.fst).length = capacity := by
    refine Eq.trans ?_ cache.length_lines
    rw [length_filterMap_eq_countP, countP_eq_length]
    exact fun line isLine => isSome_iff_ne_none.mpr (keyed line isLine)
  rw [keysWhere, same, toFinset_card_of_nodup cache.nodup, length] at few
  exact absurd few (lt_irrefl _)

end Cache

end XEditor
