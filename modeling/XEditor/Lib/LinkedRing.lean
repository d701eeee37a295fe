import Mathlib.Data.List.Nodup

/-!
# Rings of linked nodes

A ring is a list of nodes linked in both directions through a head node.  The
head is `none` and every other node is `some` element.  The elements from the
head on, in the order of `next`, are what the ring represents.
-/

namespace XEditor

open List Option Function

universe u

/-- The pointers of all nodes. -/
structure LinkedRing (κ : Type u) where
  next : Option κ → Option κ
  prev : Option κ → Option κ

namespace LinkedRing

variable {κ : Type u}

/-- A ring without elements. -/
def empty : LinkedRing κ where
  next := fun _ => none
  prev := fun _ => none

/-- The ring in the other direction. -/
def mirror (ring : LinkedRing κ) : LinkedRing κ where
  next := ring.prev
  prev := ring.next

section

variable [DecidableEq κ]

/-- Store a `next` pointer. -/
def setNext (ring : LinkedRing κ) (node target : Option κ) : LinkedRing κ :=
  { ring with next := Function.update ring.next node target }

/-- Store a `prev` pointer. -/
def setPrev (ring : LinkedRing κ) (node target : Option κ) : LinkedRing κ :=
  { ring with prev := Function.update ring.prev node target }

/-- Link the neighbours of an element with each other. -/
def unlink (ring : LinkedRing κ) (element : κ) : LinkedRing κ :=
  let ring := ring.setPrev (ring.next (some element)) (ring.prev (some element))
  ring.setNext (ring.prev (some element)) (ring.next (some element))

/-- Link an element behind the head. -/
def pushFront (ring : LinkedRing κ) (element : κ) : LinkedRing κ :=
  let ring := ring.setNext (some element) (ring.next none)
  let ring := ring.setPrev (some element) none
  let ring := ring.setPrev (ring.next none) (some element)
  ring.setNext none (some element)

end

/-- Go from node to node until an element is found or the head is reached.  The
result is `none` when there is no fuel left. -/
def walk (step : Option κ → Option κ) (found : κ → Bool) : (fuel : Nat) → Option κ →
    Option (Option κ)
  | 0, _ => none
  | _ + 1, none => some none
  | fuel + 1, some element =>
    if found element then some (some element)
    else walk step found fuel (step (some element))

/-! ## Segments -/

/-- The pointers between two nodes lead through a list of elements. -/
def Segment (ring : LinkedRing κ) : Option κ → List κ → Option κ → Prop
  | first, [], last => ring.next first = last ∧ ring.prev last = first
  | first, element :: rest, last =>
    (ring.next first = some element ∧ ring.prev (some element) = first) ∧
      ring.Segment (some element) rest last

/-- The ring leads once through a list of elements. -/
def Represents (ring : LinkedRing κ) (order : List κ) : Prop :=
  ring.Segment none order none ∧ order.Nodup

/-- The node before the end of a segment. -/
def lastNode (first : Option κ) (elements : List κ) : Option κ :=
  elements.getLast?.or first

theorem lastNode_cons (first : Option κ) (element : κ) (rest : List κ) :
    lastNode first (element :: rest) = lastNode (some element) rest := by
  rw [lastNode, getLast?_cons, lastNode]
  cases rest.getLast? <;> rfl

variable {ring : LinkedRing κ} {first last : Option κ} {elements : List κ}

theorem Segment.ends (segment : ring.Segment first elements last) :
    ring.next (lastNode first elements) = last ∧ ring.prev last = lastNode first elements := by
  induction elements generalizing first with
  | nil => exact segment
  | cons element rest ih =>
    rw [lastNode_cons]
    exact ih segment.2

variable {element : κ} {order : List κ}

variable {before after : List κ}

theorem segment_append :
    ring.Segment first (before ++ element :: after) last ↔
      ring.Segment first before (some element) ∧ ring.Segment (some element) after last := by
  induction before generalizing first with
  | nil => rfl
  | cons other before ih =>
    rw [cons_append, Segment, ih, Segment, ← and_assoc]

/-- A segment depends on the pointers of its own nodes only. -/
theorem Segment.congr {other : LinkedRing κ} (segment : ring.Segment (some element) elements last)
    (next_eq : ∀ node ∈ element :: elements, other.next (some node) = ring.next (some node))
    (prev_eq : ∀ node ∈ elements, other.prev (some node) = ring.prev (some node))
    (last_eq : other.prev last = ring.prev last) : other.Segment (some element) elements last := by
  induction elements generalizing element with
  | nil => exact ⟨(next_eq element mem_cons_self).trans segment.1, last_eq.trans segment.2⟩
  | cons second rest ih =>
    obtain ⟨⟨toSecond, fromSecond⟩, restSegment⟩ := segment
    refine ⟨⟨?_, ?_⟩, ih restSegment ?_ ?_⟩
    · exact (next_eq element mem_cons_self).trans toSecond
    · exact (prev_eq second mem_cons_self).trans fromSecond
    · exact fun node mem => next_eq node (mem_cons_of_mem element mem)
    · exact fun node mem => prev_eq node (mem_cons_of_mem second mem)

/-- Backwards a segment leads through the reversed list. -/
theorem Segment.mirror (segment : ring.Segment first elements last) :
    ring.mirror.Segment last elements.reverse first := by
  induction elements generalizing first with
  | nil => exact ⟨segment.2, segment.1⟩
  | cons element rest ih =>
    rw [reverse_cons, segment_append]
    exact ⟨ih segment.2, segment.1.2, segment.1.1⟩

/-! ## Walking -/

theorem Segment.walk (segment : ring.Segment first elements none) (found : κ → Bool) {fuel : Nat}
    (enough : elements.length < fuel) :
    walk ring.next found fuel (ring.next first) = some (elements.find? found) := by
  induction elements generalizing first fuel with
  | nil =>
    obtain ⟨fuel, rfl⟩ := Nat.exists_eq_add_of_lt enough
    rw [segment.1]
    rfl
  | cons element rest ih =>
    obtain ⟨fuel, rfl⟩ := Nat.exists_eq_succ_of_ne_zero (Nat.ne_zero_of_lt enough)
    rw [segment.1.1, LinkedRing.walk, find?_cons]
    cases found element with
    | true => rfl
    | false => exact ih segment.2 (Nat.lt_of_succ_lt_succ enough)

section

variable (represents : ring.Represents order) (found : κ → Bool) {fuel : Nat}
  (enough : order.length < fuel)
include represents enough

/-- Forwards from the head, a walk finds the first of the elements. -/
theorem Represents.walk_next :
    walk ring.next found fuel (ring.next none) = some (order.find? found) :=
  represents.1.walk found enough

/-- Backwards from the head, it finds the last one. -/
theorem Represents.walk_prev :
    walk ring.prev found fuel (ring.prev none) = some (order.reverse.find? found) :=
  represents.1.mirror.walk found (by rwa [length_reverse])

end

/-! ## Linking -/

theorem empty_represents : (empty : LinkedRing κ).Represents [] :=
  ⟨⟨rfl, rfl⟩, nodup_nil⟩

variable [DecidableEq κ]

/-- Give a segment another end. -/
theorem Segment.retarget (segment : ring.Segment first elements last) {target : Option κ}
    (distinct : ∀ element ∈ elements, some element ≠ first ∧ some element ≠ target)
    (nodup : elements.Nodup) :
    ((ring.setPrev target (lastNode first elements)).setNext (lastNode first elements)
      target).Segment first elements target := by
  induction elements generalizing first with
  | nil => exact ⟨update_self .., update_self ..⟩
  | cons element rest ih =>
    obtain ⟨notMem, nodup⟩ := nodup_cons.mp nodup
    rw [lastNode_cons]
    have here := distinct element mem_cons_self
    -- The first node is not the last one.
    have notLast : first ≠ lastNode (some element) rest := by
      rw [lastNode]
      cases found : rest.getLast? with
      | none => exact here.1.symm
      | some other =>
        have mem := mem_of_getLast? found
        exact (distinct other (mem_cons_of_mem element mem)).1.symm
    refine ⟨⟨?_, ?_⟩, ih segment.2 ?_ nodup⟩
    · exact (update_of_ne notLast ..).trans segment.1.1
    · exact (update_of_ne here.2 ..).trans segment.1.2
    intro other mem
    refine ⟨?_, (distinct other (mem_cons_of_mem element mem)).2⟩
    rintro same
    exact notMem (some.inj same ▸ mem)

theorem unlink_eq (distinct : some element ≠ ring.next (some element)) :
    ring.unlink element =
      (ring.setPrev (ring.next (some element)) (ring.prev (some element))).setNext
        (ring.prev (some element)) (ring.next (some element)) := by
  have kept : (ring.setPrev (ring.next (some element)) (ring.prev (some element))).prev
      (some element) = ring.prev (some element) :=
    update_of_ne distinct ..
  rw [unlink, kept]
  rfl

omit [DecidableEq κ] in
theorem lastNode_none_ne {elements : List κ} (notMem : element ∉ elements) :
    some element ≠ lastNode none elements := by
  rw [lastNode, or_none]
  intro same
  exact notMem (mem_of_getLast? same.symm)

/-- Unlinking an element takes it out of the ring. -/
theorem Represents.unlink (represents : ring.Represents (before ++ element :: after)) :
    (ring.unlink element).Represents (before ++ after) := by
  obtain ⟨segment, nodup⟩ := represents
  obtain ⟨beforeSegment, afterSegment⟩ := segment_append.mp segment
  obtain ⟨beforeNodup, elementAfter, disjoint⟩ := nodup_append.mp nodup
  obtain ⟨notMem, afterNodup⟩ := nodup_cons.mp elementAfter
  have restNodup : (before ++ after).Nodup :=
    nodup.sublist (List.Sublist.append_left (sublist_cons_self element after) before)
  refine ⟨?_, restNodup⟩
  have prev_eq := beforeSegment.ends.2
  cases after with
  | nil =>
    have next_eq := afterSegment.1
    rw [unlink_eq (by rw [next_eq]; nofun), next_eq, prev_eq, append_nil]
    exact beforeSegment.retarget (fun _ _ => ⟨nofun, nofun⟩) beforeNodup
  | cons second after =>
    have next_eq := afterSegment.1.1
    have distinct : element ≠ second := by
      rintro rfl
      exact notMem mem_cons_self
    obtain ⟨secondNotMem, -⟩ := nodup_cons.mp afterNodup
    rw [unlink_eq (by rw [next_eq]; simpa using distinct), next_eq, prev_eq, segment_append]
    constructor
    · refine beforeSegment.retarget ?_ beforeNodup
      intro other mem
      refine ⟨nofun, ?_⟩
      rintro same
      exact disjoint other mem second (mem_cons_of_mem element mem_cons_self) (some.inj same)
    · refine afterSegment.2.congr ?_ ?_ ?_
      · intro node mem
        refine update_of_ne (lastNode_none_ne ?_) ..
        intro memBefore
        exact disjoint node memBefore node (mem_cons_of_mem element mem) rfl
      · intro node mem
        have other : some node ≠ some second := by
          rintro same
          exact secondNotMem (some.inj same ▸ mem)
        exact update_of_ne other ..
      · have head : none ≠ some second := nofun
        exact update_of_ne head (lastNode none before) ring.prev

/-- A new element comes first. -/
theorem Represents.pushFront (represents : ring.Represents order) (notMem : element ∉ order) :
    (ring.pushFront element).Represents (element :: order) := by
  obtain ⟨segment, nodup⟩ := represents
  refine ⟨?_, nodup_cons.mpr ⟨notMem, nodup⟩⟩
  have first_ne : some element ≠ ring.next none := by
    cases order with
    | nil => rw [segment.1]; nofun
    | cons other order =>
      rw [segment.1.1]
      intro same
      exact notMem (some.inj same ▸ mem_cons_self)
  have next_eq (node : Option κ) : (ring.pushFront element).next node =
      if node = none then some element
      else if node = some element then ring.next none else ring.next node := by
    simp only [LinkedRing.pushFront, setNext, setPrev, update_apply]
  have prev_eq (node : Option κ) : (ring.pushFront element).prev node =
      if node = ring.next none then some element
      else if node = some element then none else ring.prev node := by
    simp only [LinkedRing.pushFront, setNext, setPrev, update_apply, reduceCtorEq, if_false]
  refine ⟨⟨by rw [next_eq, if_pos rfl], ?_⟩, ?_⟩
  · rw [prev_eq, if_neg first_ne, if_pos rfl]
  cases order with
  | nil =>
    obtain ⟨toHead, -⟩ := segment
    refine ⟨?_, ?_⟩
    · rw [next_eq, if_neg nofun, if_pos rfl, toHead]
    · rw [prev_eq, toHead, if_pos rfl]
  | cons second order =>
    obtain ⟨⟨toSecond, -⟩, rest⟩ := segment
    obtain ⟨secondNotMem, -⟩ := nodup_cons.mp nodup
    refine ⟨⟨?_, ?_⟩, rest.congr ?_ ?_ ?_⟩
    · rw [next_eq, if_neg nofun, if_pos rfl, toSecond]
    · rw [prev_eq, toSecond, if_pos rfl]
    · intro node mem
      rw [next_eq, if_neg nofun, if_neg]
      intro same
      exact notMem (some.inj same ▸ mem)
    · intro node mem
      rw [prev_eq, toSecond, if_neg, if_neg]
      · intro same
        exact notMem (some.inj same ▸ mem_cons_of_mem second mem)
      · intro same
        exact secondNotMem (some.inj same ▸ mem)
    · rw [prev_eq, toSecond, if_neg nofun, if_neg nofun]

end LinkedRing

end XEditor
