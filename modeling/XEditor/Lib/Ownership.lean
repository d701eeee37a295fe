import Mathlib.Data.Set.Insert

/-!
# Places that own what they name

A place names an element, or zero when it names nothing.  Places own exactly a
set when no two of them name the same element and the elements named are those
of the set.  Taking an element that is not in the set for a place that names
nothing, and giving up what some places name, keep this.
-/

namespace XEditor

open Function

variable {P B : Type*} [Zero B]

/-- No element is named by two places, and the elements named are those of the set. -/
structure Owns (names : P → B) (owned : Set B) : Prop where
  unique : ∀ {place other}, names place = names other → names place ≠ 0 → place = other
  mem_iff : ∀ {element}, element ∈ owned ↔ element ≠ 0 ∧ ∃ place, names place = element

namespace Owns

variable {names : P → B} {owned : Set B}

theorem mem (owns : Owns names owned) {place : P} (nonzero : names place ≠ 0) :
    names place ∈ owned :=
  owns.mem_iff.mpr ⟨nonzero, place, rfl⟩

theorem ne_of_notMem (owns : Owns names owned) {element : B} (nonzero : element ≠ 0)
    (free : element ∉ owned) (place : P) : names place ≠ element := by
  rintro rfl
  exact free (owns.mem nonzero)

/-- A place takes an element that nobody owns. -/
theorem take [DecidableEq P] (owns : Owns names owned) {place : P} {element : B}
    (empty : names place = 0) (nonzero : element ≠ 0) (free : element ∉ owned) :
    Owns (update names place element) (insert element owned) where
  unique := by
    intro first second same named
    by_cases isFirst : first = place
    · by_cases isSecond : second = place
      · rw [isFirst, isSecond]
      · rw [isFirst, update_self, update_of_ne isSecond] at same
        exact absurd same.symm (owns.ne_of_notMem nonzero free second)
    · rw [update_of_ne isFirst] at same named
      by_cases isSecond : second = place
      · rw [isSecond, update_self] at same
        exact absurd same (owns.ne_of_notMem nonzero free first)
      · rw [update_of_ne isSecond] at same
        exact owns.unique same named
  mem_iff := by
    intro other
    rw [Set.mem_insert_iff, owns.mem_iff]
    constructor
    · rintro (rfl | ⟨named, holder, rfl⟩)
      · exact ⟨nonzero, place, update_self ..⟩
      · refine ⟨named, holder, update_of_ne ?_ _ _⟩
        rintro rfl
        exact named empty
    · rintro ⟨named, holder, rfl⟩
      by_cases isPlace : holder = place
      · exact .inl (isPlace ▸ update_self ..)
      · rw [update_of_ne isPlace] at named ⊢
        exact .inr ⟨named, holder, rfl⟩

end Owns

end XEditor
