import Mathlib.Data.Finset.Card

/-!
# Tries in an array

A trie is kept as a table of edges between numbered nodes.  Node 0 is the root,
an edge that leads to 0 is none, and new nodes are numbered in the order in which
they are made.  Such a table represents a finite set of words that contains every
prefix of each of its words.
-/

namespace XEditor

open List Option Function

universe u

/-- The table of edges and the number of the last node. -/
structure Trie (σ : Type u) where
  n : Nat
  ch : Nat → σ → Nat

namespace Trie

variable {σ : Type u}

/-- The table with no edge. -/
def empty : Trie σ := ⟨0, fun _ _ => 0⟩

/-- The node at which a word ends that is read from a node on. -/
def node (trie : Trie σ) : Nat → List σ → Option Nat
  | u, [] => some u
  | u, c :: word => if trie.ch u c = 0 then none else trie.node (trie.ch u c) word

/-- Follow a word as long as there are edges for it: the node at which it leaves
the trie, and the number of letters read. -/
def walk (trie : Trie σ) : Nat → List σ → Nat × Nat
  | u, [] => (u, 0)
  | u, c :: word =>
    if trie.ch u c = 0 then (u, 0)
    else ((trie.walk (trie.ch u c) word).1, (trie.walk (trie.ch u c) word).2 + 1)

section

variable (trie : Trie σ)

theorem node_nil (u : Nat) : trie.node u [] = some u :=
  rfl

theorem node_append (u : Nat) (word rest : List σ) :
    trie.node u (word ++ rest) = (trie.node u word).bind (trie.node · rest) := by
  induction word generalizing u with
  | nil => rfl
  | cons c word ih =>
    rw [cons_append, node, node]
    split
    · rfl
    · exact ih _

section

variable (u : Nat) (word : List σ)

theorem node_concat (c : σ) :
    trie.node u (word ++ [c]) =
      (trie.node u word).bind fun v => if trie.ch v c = 0 then none else some (trie.ch v c) :=
  trie.node_append u word [c]

/-- The walk ends at the node of the letters it has read. -/
theorem node_walk : trie.node u (word.take (trie.walk u word).2) = some (trie.walk u word).1 := by
  induction word generalizing u with
  | nil => rfl
  | cons c word ih =>
    rw [walk]
    by_cases edge : trie.ch u c = 0
    · rw [if_pos edge]
      rfl
    · rw [if_neg edge, take_succ_cons, node, if_neg edge]
      exact ih _

theorem walk_le_length : (trie.walk u word).2 ≤ word.length := by
  induction word generalizing u with
  | nil => exact Nat.le_refl 0
  | cons c word ih =>
    rw [walk]
    split
    · exact Nat.zero_le _
    · exact Nat.succ_le_succ (ih _)

end

/-- No longer part of the word is in the trie. -/
theorem length_le_walk {u v : Nat} {word start : List σ} (isPrefix : start <+: word)
    (inTrie : trie.node u start = some v) : start.length ≤ (trie.walk u word).2 := by
  induction word generalizing u start with
  | nil => rw [prefix_nil.mp isPrefix, length_nil]; exact Nat.zero_le _
  | cons c word ih =>
    cases start with
    | nil => exact Nat.zero_le _
    | cons first start =>
      obtain ⟨rfl, rest⟩ := cons_prefix_cons.mp isPrefix
      rw [node] at inTrie
      by_cases edge : trie.ch u first = 0
      · rw [if_pos edge] at inTrie
        cases inTrie
      · rw [if_neg edge] at inTrie
        rw [walk, if_neg edge]
        exact Nat.succ_le_succ (ih rest inTrie)

end

/-! ## The words of a trie -/

/-- The table represents a set of words: each of them leads to a node of its own,
and every node belongs to one of them. -/
structure Holds (trie : Trie σ) (words : Finset (List σ)) : Prop where
  mem : ∀ word, word ∈ words ↔ (trie.node 0 word).isSome
  card : words.card = trie.n + 1
  bounded : ∀ u c, trie.ch u c ≤ trie.n
  fresh : ∀ u c, trie.n < u → trie.ch u c = 0
  inj : ∀ u v c d, trie.ch u c = trie.ch v d → trie.ch u c ≠ 0 → u = v ∧ c = d

section

variable {trie : Trie σ} {words : Finset (List σ)}

theorem Holds.node_le (holds : trie.Holds words) {word : List σ} {u : Nat}
    (isNode : trie.node 0 word = some u) : u ≤ trie.n := by
  cases word using List.reverseRecOn with
  | nil =>
    cases isNode
    exact Nat.zero_le _
  | append_singleton word c =>
    rw [node_concat] at isNode
    obtain ⟨v, -, edge⟩ := bind_eq_some_iff.mp isNode
    split at edge
    · cases edge
    · cases edge
      exact holds.bounded v c

/-- Two words never lead to one node. -/
theorem Holds.node_inj (holds : trie.Holds words) {first second : List σ} {u : Nat}
    (isFirst : trie.node 0 first = some u) (isSecond : trie.node 0 second = some u) :
    first = second := by
  -- The last edge of a word is the only one that leads to its node.
  induction first using List.reverseRecOn generalizing second u with
  | nil =>
    cases isFirst
    cases second using List.reverseRecOn with
    | nil => rfl
    | append_singleton second d =>
      rw [node_concat] at isSecond
      obtain ⟨v, -, edge⟩ := bind_eq_some_iff.mp isSecond
      split at edge
      · cases edge
      · rename_i isEdge
        exact absurd (some.inj edge) isEdge
  | append_singleton first c ih =>
    rw [node_concat] at isFirst
    obtain ⟨v, isV, edge⟩ := bind_eq_some_iff.mp isFirst
    split at edge
    · cases edge
    rename_i isEdge
    obtain rfl := some.inj edge
    cases second using List.reverseRecOn with
    | nil => exact absurd (some.inj isSecond).symm isEdge
    | append_singleton second d =>
      rw [node_concat] at isSecond
      obtain ⟨w, isW, other⟩ := bind_eq_some_iff.mp isSecond
      split at other
      · cases other
      · obtain ⟨rfl, rfl⟩ := holds.inj v w c d (some.inj other).symm isEdge
        rw [ih isV isW]

theorem Holds.prefix_mem (holds : trie.Holds words) {start word : List σ}
    (isPrefix : start <+: word) (isWord : word ∈ words) : start ∈ words := by
  obtain ⟨rest, rfl⟩ := isPrefix
  rw [holds.mem, node_append] at isWord
  rw [holds.mem]
  cases found : trie.node 0 start with
  | none =>
    rw [found] at isWord
    cases isWord
  | some u => rfl

theorem empty_holds : (empty : Trie σ).Holds {[]} where
  mem := by
    intro word
    cases word with
    | nil => simp [node]
    | cons c word => simp [node, empty]
  card := rfl
  bounded := fun _ _ => Nat.le_refl 0
  fresh := fun _ _ _ => rfl
  inj := fun _ _ _ _ _ isEdge => absurd rfl isEdge

end

/-! ## Insertion -/

/-- A trie has become another one: words keep their nodes, and those of new words
are new. -/
structure Extends (trie next : Trie σ) : Prop where
  grows : trie.n ≤ next.n
  kept : ∀ word u, trie.node 0 word = some u → next.node 0 word = some u
  new : ∀ word u, next.node 0 word = some u → trie.node 0 word = some u ∨ trie.n < u

theorem Extends.refl (trie : Trie σ) : trie.Extends trie :=
  ⟨Nat.le_refl _, fun _ _ found => found, fun _ _ found => Or.inl found⟩

theorem Extends.trans {trie next last : Trie σ} (first : trie.Extends next)
    (second : next.Extends last) : trie.Extends last where
  grows := first.grows.trans second.grows
  kept := fun word u found => second.kept word u (first.kept word u found)
  new := by
    intro word u found
    rcases second.new word u found with old | new
    · exact first.new word u old
    · exact Or.inr (Nat.lt_of_le_of_lt first.grows new)

variable [DecidableEq σ]

/-- An edge from a node, made if there is none. -/
def addEdge (trie : Trie σ) (u : Nat) (c : σ) : Trie σ :=
  if trie.ch u c = 0 then
    ⟨trie.n + 1, Function.update trie.ch u (Function.update (trie.ch u) c (trie.n + 1))⟩
  else trie

/-- Insert a word from a node on.  Returns the node at which it ends. -/
def insertFrom (trie : Trie σ) : Nat → List σ → Trie σ × Nat
  | u, [] => (trie, u)
  | u, c :: word => (trie.addEdge u c).insertFrom ((trie.addEdge u c).ch u c) word

section

variable {trie : Trie σ} {words : Finset (List σ)} {u : Nat} {word : List σ} {c : σ}

theorem addEdge_of_edge (isEdge : trie.ch u c ≠ 0) : trie.addEdge u c = trie :=
  if_neg isEdge

theorem addEdge_n (noEdge : trie.ch u c = 0) : (trie.addEdge u c).n = trie.n + 1 := by
  rw [addEdge, if_pos noEdge]

theorem addEdge_ch (noEdge : trie.ch u c = 0) (v : Nat) (d : σ) :
    (trie.addEdge u c).ch v d = if v = u ∧ d = c then trie.n + 1 else trie.ch v d := by
  rw [addEdge, if_pos noEdge]
  dsimp only
  by_cases here : v = u
  · subst here
    rw [update_self, update_apply]
    simp
  · rw [update_of_ne here, if_neg fun both => here both.1]

variable (holds : trie.Holds words) (isNode : trie.node 0 word = some u)
include holds isNode

/-- A new edge adds one word. -/
theorem Holds.node_addEdge (noEdge : trie.ch u c = 0) (other : List σ) :
    (trie.addEdge u c).node 0 other =
      if other = word ++ [c] then some (trie.n + 1) else trie.node 0 other := by
  have notNew : trie.n + 1 ≠ u := by
    have := holds.node_le isNode
    omega
  induction other using List.reverseRecOn with
  | nil =>
    rw [if_neg (by simp)]
    rfl
  | append_singleton other d ih =>
    rw [node_concat, ih, node_concat]
    by_cases new : other = word ++ [c]
    · subst new
      have longer : (word ++ [c]) ++ [d] ≠ word ++ [c] := by simp
      have nothing : trie.node 0 (word ++ [c]) = none := by
        rw [node_concat, isNode, bind_some, if_pos noEdge]
      have noFurther : (trie.addEdge u c).ch (trie.n + 1) d = 0 := by
        rw [addEdge_ch noEdge, if_neg fun both => notNew both.1]
        exact holds.fresh _ _ (Nat.lt_succ_self _)
      rw [if_pos rfl, if_neg longer, nothing, bind_some, if_pos noFurther]
      rfl
    · rw [if_neg new]
      cases found : trie.node 0 other with
      | none =>
        have notHere : other ++ [d] ≠ word ++ [c] := by
          intro same
          rw [(append_inj' same rfl).1, isNode] at found
          cases found
        rw [if_neg notHere]
        rfl
      | some v =>
        have here : v = u ↔ other = word := by
          constructor
          · rintro rfl
            exact holds.node_inj found isNode
          · rintro rfl
            exact some.inj (found.symm.trans isNode)
        rw [bind_some, bind_some, addEdge_ch noEdge]
        by_cases same : v = u ∧ d = c
        · have isWord : other ++ [d] = word ++ [c] := by rw [here.mp same.1, same.2]
          rw [if_pos same, if_pos isWord, if_neg (Nat.succ_ne_zero _)]
        have notWord : other ++ [d] ≠ word ++ [c] := by
          intro isWord
          obtain ⟨isOther, isLetter⟩ := append_inj' isWord rfl
          exact same ⟨here.mpr isOther, singleton_inj.mp isLetter⟩
        rw [if_neg same, if_neg notWord]

/-- The trie with an edge holds one word more. -/
theorem Holds.addEdge :
    (trie.addEdge u c).Holds (insert (word ++ [c]) words) ∧
      (trie.addEdge u c).node 0 (word ++ [c]) = some ((trie.addEdge u c).ch u c) ∧
        trie.Extends (trie.addEdge u c) := by
  by_cases noEdge : trie.ch u c = 0
  · have node := holds.node_addEdge isNode noEdge
    have new : word ++ [c] ∉ words := by
      rw [holds.mem, node_concat, isNode, bind_some, if_pos noEdge]
      exact Bool.false_ne_true
    refine ⟨⟨?_, ?_, ?_, ?_, ?_⟩, ?_, ?_, ?_, ?_⟩
    · intro other
      rw [node, Finset.mem_insert, holds.mem]
      by_cases isNew : other = word ++ [c]
      · simp [isNew]
      · simp [isNew]
    · rw [Finset.card_insert_of_notMem new, holds.card, addEdge_n noEdge]
    · intro v d
      rw [addEdge_ch noEdge, addEdge_n noEdge]
      split
      · exact Nat.le_refl _
      · exact Nat.le_succ_of_le (holds.bounded v d)
    · intro v d isFresh
      have atMost := holds.node_le isNode
      rw [addEdge_n noEdge] at isFresh
      rw [addEdge_ch noEdge, if_neg (by omega)]
      exact holds.fresh v d (by omega)
    · intro v w d e same isEdge
      rw [addEdge_ch noEdge] at same isEdge
      rw [addEdge_ch noEdge] at same
      have vBound := holds.bounded v d
      have wBound := holds.bounded w e
      split at same
      · split at same
        · rename_i isV isW
          exact ⟨isV.1.trans isW.1.symm, isV.2.trans isW.2.symm⟩
        · omega
      · split at same
        · omega
        · rename_i notV _
          rw [if_neg notV] at isEdge
          exact holds.inj v w d e same isEdge
    · rw [node, if_pos rfl, addEdge_ch noEdge, if_pos ⟨rfl, rfl⟩]
    · rw [addEdge_n noEdge]
      exact Nat.le_succ _
    · intro other v found
      rw [node, if_neg, found]
      rintro rfl
      rw [node_concat, isNode, bind_some, if_pos noEdge] at found
      cases found
    · intro other v found
      rw [node] at found
      split at found
      · exact Or.inr (Nat.lt_of_lt_of_eq (Nat.lt_succ_self _) (some.inj found))
      · exact Or.inl found
  · have isWord : trie.node 0 (word ++ [c]) = some (trie.ch u c) := by
      rw [node_concat, isNode, bind_some, if_neg noEdge]
    have old : word ++ [c] ∈ words := by
      rw [holds.mem, isWord]
      rfl
    rw [addEdge_of_edge noEdge, Finset.insert_eq_of_mem old]
    exact ⟨holds, isWord, Extends.refl trie⟩

/-- Insertion adds a word with all its prefixes and returns its node. -/
theorem Holds.insertFrom (rest : List σ) :
    (trie.insertFrom u rest).1.Holds (words ∪ (word ++ rest).inits.toFinset) ∧
      (trie.insertFrom u rest).1.node 0 (word ++ rest) = some (trie.insertFrom u rest).2 ∧
        trie.Extends (trie.insertFrom u rest).1 := by
  induction rest generalizing trie words word u with
  | nil =>
    have old : (word ++ []).inits.toFinset ⊆ words := by
      intro start isPrefix
      rw [append_nil, List.mem_toFinset, mem_inits] at isPrefix
      exact holds.prefix_mem isPrefix ((holds.mem word).mpr (by rw [isNode]; rfl))
    rw [Finset.union_eq_left.mpr old, append_nil]
    exact ⟨holds, isNode, Extends.refl trie⟩
  | cons c rest ih =>
    obtain ⟨added, isNext, edge⟩ := holds.addEdge (c := c) isNode
    obtain ⟨inserted, ends, further⟩ := ih added isNext
    have all : insert (word ++ [c]) words ∪ ((word ++ [c]) ++ rest).inits.toFinset =
        words ∪ (word ++ c :: rest).inits.toFinset := by
      rw [Finset.insert_union, append_assoc]
      apply Finset.insert_eq_of_mem
      rw [Finset.mem_union, List.mem_toFinset, mem_inits]
      exact Or.inr ⟨rest, by simp⟩
    rw [all] at inserted
    rw [append_assoc] at ends
    exact ⟨inserted, ends, edge.trans further⟩

end

/-! ## Values at the nodes -/

/-- A table of values at the nodes of a trie is a map from words, with a value of
its own for words that are not in it. -/
structure Maps {β : Type*} (trie : Trie σ) (words : Finset (List σ)) (values : Nat → β)
    (map : List σ → β) (none : β) : Prop extends Holds trie words where
  value : ∀ word u, trie.node 0 word = some u → values u = map word
  absent : ∀ word ∉ words, map word = none
  unused : ∀ u, trie.n < u → values u = none

/-- A value stored at the node of an inserted key changes the map at the key. -/
theorem Maps.insert {β : Type*} {trie : Trie σ} {words : Finset (List σ)} {values : Nat → β}
    {map : List σ → β} {none : β} (maps : trie.Maps words values map none) (key : List σ)
    (new : β) :
    (trie.insertFrom 0 key).1.Maps (words ∪ key.inits.toFinset)
      (update values (trie.insertFrom 0 key).2 new) (update map key new)
      none := by
  obtain ⟨holds, ends, extended⟩ := maps.insertFrom (trie.node_nil 0) key
  refine ⟨holds, ?_, ?_, ?_⟩
  · intro word u isNode
    by_cases isKey : word = key
    · subst isKey
      rw [update_self, some.inj (isNode.symm.trans ends), update_self]
    have other : u ≠ (trie.insertFrom 0 key).2 := by
      rintro rfl
      exact isKey (holds.node_inj isNode ends)
    rw [update_of_ne isKey, update_of_ne other]
    rcases extended.new word u isNode with old | isNew
    · exact maps.value word u old
    -- The word is a new prefix of the key.
    rw [maps.unused u isNew, maps.absent word]
    intro isWord
    obtain ⟨v, found⟩ := isSome_iff_exists.mp ((maps.mem word).mp isWord)
    have same := some.inj ((extended.kept _ v found).symm.trans isNode)
    have old := maps.node_le found
    omega
  · intro word isNoWord
    rw [Finset.mem_union, not_or] at isNoWord
    have other : word ≠ key := by
      rintro rfl
      exact isNoWord.2 (List.mem_toFinset.mpr ((mem_inits _ _).mpr (prefix_refl _)))
    rw [update_of_ne other]
    exact maps.absent word isNoWord.1
  · intro u isUnused
    have other : u ≠ (trie.insertFrom 0 key).2 := ((holds.node_le ends).trans_lt isUnused).ne'
    rw [update_of_ne other]
    exact maps.unused u (extended.grows.trans_lt isUnused)

end Trie

end XEditor
