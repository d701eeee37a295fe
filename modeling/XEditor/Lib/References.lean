import Mathlib.Data.Finset.Card

/-!
# Counted references

Objects carry a count of the references to them.  A reference sits in a slot,
which has at most one, or is in the hands of the code that is running.  The
counts are exact when each is the number of references of both kinds; the
elementary operations keep them exact.
-/

namespace XEditor.References

open Option Finset Function Multiset

universe u v

variable {ι : Type u} {κ : Type v} [Fintype ι] [DecidableEq ι] [DecidableEq κ]

/-- How many slots refer to an object. -/
def pointers (slots : ι → Option κ) (object : κ) : Nat :=
  (Finset.univ.filter fun slot => slots slot = some object).card

/-- Every count is the number of references in slots and in hand. -/
def Exact (count : κ → Nat) (slots : ι → Option κ) (held : Multiset κ) : Prop :=
  ∀ object, count object = pointers slots object + held.count object

omit [DecidableEq ι] in
theorem pointers_eq_zero_iff {slots : ι → Option κ} {object : κ} :
    pointers slots object = 0 ↔ ∀ slot, slots slot ≠ some object := by
  simp [pointers, Finset.filter_eq_empty_iff]

/-- Changing a slot changes the references to its old and its new object. -/
theorem pointers_update (slots : ι → Option κ) (slot : ι) (new : Option κ) (object : κ) :
    pointers (update slots slot new) object +
        (if slots slot = some object then 1 else 0) =
      pointers slots object + if new = some object then 1 else 0 := by
  have others (f : ι → Option κ) : pointers f object =
      ((Finset.univ.erase slot).filter fun other => f other = some object).card +
        if f slot = some object then 1 else 0 := by
    rw [pointers, ← Finset.insert_erase (Finset.mem_univ slot), Finset.filter_insert]
    split
    · simp
    · simp
  have unchanged : ((Finset.univ.erase slot).filter fun other =>
      update slots slot new other = some object) =
        (Finset.univ.erase slot).filter fun other => slots other = some object := by
    apply Finset.filter_congr
    intro other mem
    rw [update_of_ne (Finset.ne_of_mem_erase mem)]
  rw [others (update slots slot new), others slots, unchanged, update_self]
  omega

namespace Exact

variable {count : κ → Nat} {slots : ι → Option κ} {held : Multiset κ} {object : κ} {slot : ι}

omit [DecidableEq ι] in
/-- A new reference is counted and taken in hand. -/
theorem hold (exact : Exact count slots held) (object : κ) :
    Exact (update count object (count object + 1)) slots (object ::ₘ held) := by
  intro other
  have before := exact other
  by_cases same : other = object
  · subst same
    rw [update_self, count_cons_self]
    omega
  · rw [update_of_ne same, count_cons_of_ne same]
    exact before

omit [DecidableEq ι] in
/-- A reference in hand is given up. -/
theorem release (exact : Exact count slots (object ::ₘ held)) :
    Exact (update count object (count object - 1)) slots held := by
  intro other
  have before := exact other
  by_cases same : other = object
  · subst same
    rw [count_cons_self] at before
    rw [update_self]
    omega
  · rw [count_cons_of_ne same] at before
    rw [update_of_ne same]
    exact before

/-- A reference in hand goes to an empty slot. -/
theorem store (exact : Exact count slots (object ::ₘ held)) (empty : slots slot = none) :
    Exact count (update slots slot (some object)) held := by
  intro other
  have before := exact other
  have changed := pointers_update slots slot (some object) other
  rw [empty, if_neg (some_ne_none other).symm] at changed
  by_cases same : other = object
  · subst same
    rw [if_pos rfl] at changed
    rw [count_cons_self] at before
    omega
  · rw [if_neg (fun eq => same (some.inj eq).symm)] at changed
    rw [count_cons_of_ne same] at before
    omega

/-- The reference of a slot is taken in hand. -/
theorem take (exact : Exact count slots held) (filled : slots slot = some object) :
    Exact count (update slots slot none) (object ::ₘ held) := by
  intro other
  have before := exact other
  have changed := pointers_update slots slot none other
  rw [filled, if_neg (some_ne_none other).symm] at changed
  by_cases same : other = object
  · subst same
    rw [if_pos rfl] at changed
    rw [count_cons_self]
    omega
  · rw [if_neg (fun eq => same (some.inj eq).symm)] at changed
    rw [count_cons_of_ne same]
    omega

omit [DecidableEq ι] in
/-- The references determine the counts. -/
theorem count_eq {other : κ → Nat} (first : Exact count slots held)
    (second : Exact other slots held) : count = other :=
  funext fun object => (first object).trans (second object).symm

omit [DecidableEq ι] in
theorem pos_of_held (exact : Exact count slots (object ::ₘ held)) : 1 ≤ count object := by
  have here := exact object
  rw [count_cons_self] at here
  omega

omit [DecidableEq ι] in
theorem ne_of_count_eq_zero (exact : Exact count slots held) (unused : count object = 0)
    (slot : ι) : slots slot ≠ some object := by
  have here := exact object
  exact pointers_eq_zero_iff.mp (by omega) slot

omit [DecidableEq ι] in
theorem pos_of_slot (exact : Exact count slots held) (filled : slots slot = some object) :
    1 ≤ count object := by
  by_contra unused
  exact exact.ne_of_count_eq_zero (by omega) slot filled

end Exact

end XEditor.References
