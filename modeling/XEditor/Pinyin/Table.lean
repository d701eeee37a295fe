import Mathlib.Algebra.Ring.Int.Defs
import XEditor.Lib.Trie
import XEditor.Text.Row

/-!
# The pinyin table

`init_ascii_gbk_pinyin.c` keeps the Han characters of each pinyin in a trie of
letters.  A lookup follows the letters of a string as far as the trie goes and
reads a candidate from the node it ends at.

Over any sequence of insertions the table is a map from keys to characters, and a
lookup asks that map for the longest part of the string with which some key
begins.
-/

namespace XEditor.Pinyin

open List Option Text

/-! ## The source -/

/-- Source `MAXNODE`. -/
def maxnode : Nat := 5000

/-- The test for a small letter. -/
def isSmall (c : UInt8) : Bool :=
  decide (97 ≤ c ∧ c ≤ 122)

/-- The arrays `ch` and `hans` with the counter `n`.  The column of `ch` for a
letter is named by the letter. -/
structure PinyinTrie extends Trie UInt8 where
  hans : Nat → Option Row

/-- The static arrays before the first call. -/
def PinyinTrie.start : PinyinTrie :=
  { Trie.empty with hans := fun _ => none }

/-- The loop of `insert`.  It fails where it leaves the array. -/
def insertLoop (trie : Trie UInt8) : Nat → Row → Option (Trie UInt8 × Nat)
  | u, [] => some (trie, u)
  | u, c :: s =>
    if u < maxnode ∧ isSmall c then
      insertLoop (trie.addEdge u c) ((trie.addEdge u c).ch u c) s
    else none

/-- Source `insert`. -/
def insert (trie : Trie UInt8) (s : Row) : Option (Trie UInt8 × Nat) :=
  insertLoop trie 0 s

/-- The loop of `getnode`. -/
def getnodeLoop (trie : Trie UInt8) : (u deep : Nat) → Row → Option (Nat × Nat)
  | u, deep, [] => some (u, deep)
  | u, deep, c :: s =>
    if isSmall c = false then some (u, deep)
    else if u < maxnode then
      if trie.ch u c = 0 then some (u, deep)
      else getnodeLoop trie (trie.ch u c) (deep + 1) s
    else none

/-- Source `getnode`: the return value, the node and the depth. -/
def getnode (trie : Trie UInt8) (s : Row) : Option (Int × Nat × Nat) := do
  let (u, deep) ← getnodeLoop trie 0 0 s
  let r : Int := if u > 0 then if deep = s.length then 1 else 0 else -1
  some (r, u, deep)

/-- A byte of a string at an index. -/
def byteOf (s : Row) (i : Int) : Option UInt8 :=
  if 0 ≤ i then s[i.toNat]? else none

/-- Source `get_pinyin_ith_han`: the depth with the two bytes, or with none if the
return value is -1. -/
def getPinyinIthHan (table : PinyinTrie) (pinyin : Row) (i : Int) :
    Option (Nat × Option (UInt8 × UInt8)) := do
  let (r, u, deep) ← getnode table.toTrie pinyin
  if r = -1 then some (deep, none)
  else if u < maxnode then
    match table.hans u with
    | none => some (deep, none)
    | some han =>
      let offset := i * 2
      -- The index is an `int`.
      if offset + 1 < -(2 ^ 31) ∨ 2 ^ 31 ≤ offset + 1 then none
      else if offset + 1 ≥ han.length then some (deep, none)
      else do
        let c1 ← byteOf han offset
        let c2 ← byteOf han (offset + 1)
        some (deep, some (c1, c2))
  else none

/-- Source `handle_pinyin_hans`. -/
def handlePinyinHans (table : PinyinTrie) (pinyin han : Row) : Option PinyinTrie := do
  let (trie, u) ← insert table.toTrie pinyin
  if u < maxnode then
    some { toTrie := trie, hans := Function.update table.hans u (some han) }
  else none

/-- A sequence of calls of `handle_pinyin_hans`. -/
def handleAll (table : PinyinTrie) (calls : List (Row × Row)) : Option PinyinTrie :=
  calls.foldlM (fun table call => handlePinyinHans table call.1 call.2) table

/-! ## The map -/

/-- The beginnings of the keys of some calls, which are the nodes of their
trie. -/
def beginnings (calls : List (Row × Row)) : Finset Row :=
  Insert.insert [] (calls.flatMap fun call => call.1.inits).toFinset

/-- The characters last stored for a key. -/
def lastHans (calls : List (Row × Row)) (key : Row) : Option Row :=
  (calls.reverse.find? fun call => call.1 = key).map Prod.snd

/-- A string is the longest beginning of another with which some key begins; the
empty one if there is no key. -/
structure LongestBeginning (calls : List (Row × Row)) (s k : Row) : Prop where
  isPrefix : k <+: s
  ofKey : k = [] ∨ ∃ call ∈ calls, k <+: call.1
  longest : ∀ other, other <+: s → (∃ call ∈ calls, other <+: call.1) → other.length ≤ k.length

/-- The candidate with a number for a key. -/
def candidate (calls : List (Row × Row)) (k : Row) (i : Nat) : Option (UInt8 × UInt8) :=
  if k = [] then none
  else do
    let hans ← lastHans calls k
    let c1 ← hans[2 * i]?
    let c2 ← hans[2 * i + 1]?
    some (c1, c2)

variable {calls : List (Row × Row)}

theorem mem_beginnings {k : Row} :
    k ∈ beginnings calls ↔ k = [] ∨ ∃ call ∈ calls, k <+: call.1 := by
  simp [beginnings]

theorem beginnings_concat (calls : List (Row × Row)) (call : Row × Row) :
    beginnings (calls ++ [call]) = beginnings calls ∪ call.1.inits.toFinset := by
  ext k
  simp only [mem_beginnings, Finset.mem_union, mem_append, mem_singleton, List.mem_toFinset,
    mem_inits]
  grind

theorem lastHans_concat (calls : List (Row × Row)) (call : Row × Row) :
    lastHans (calls ++ [call]) = Function.update (lastHans calls) call.1 (some call.2) := by
  funext key
  rw [lastHans, reverse_append, reverse_singleton, singleton_append,
    find?_cons, Function.update_apply]
  by_cases same : key = call.1
  · simp [same]
  · simp [same, Ne.symm same, lastHans]

/-! ## Insertion -/

/-- The table after some calls: its nodes are the beginnings of the keys, and the
node of each holds what was last stored for it. -/
def Represents (table : PinyinTrie) (calls : List (Row × Row)) : Prop :=
  table.Maps (beginnings calls) table.hans (lastHans calls) none

theorem start_represents : Represents PinyinTrie.start [] where
  toHolds := Trie.empty_holds
  value := fun _ _ _ => rfl
  absent := fun _ _ => rfl
  unused := fun _ _ => rfl

variable {trie : Trie UInt8} {words : Finset Row} {u i : Nat} {table : PinyinTrie}

/-- The loop stays inside the array if the nodes of the trie it makes do. -/
theorem insertLoop_eq {word s : Row} (holds : trie.Holds words) (isNode : trie.node 0 word = some u)
    (letters : ∀ c ∈ s, isSmall c) (fits : (trie.insertFrom u s).1.n < maxnode) :
    insertLoop trie u s = some (trie.insertFrom u s) := by
  induction s generalizing trie words word u with
  | nil => rfl
  | cons c s ih =>
    obtain ⟨added, isNext, -⟩ := holds.addEdge (c := c) isNode
    have inside : u < maxnode :=
      calc u ≤ trie.n := holds.node_le isNode
        _ ≤ (trie.insertFrom u (c :: s)).1.n := (holds.insertFrom isNode (c :: s)).2.2.grows
        _ < maxnode := fits
    rw [insertLoop, if_pos ⟨inside, letters c (mem_cons_self ..)⟩]
    exact ih added isNext (fun d isIn => letters d (mem_cons_of_mem c isIn)) fits

/-- One call adds one entry. -/
theorem Represents.handlePinyinHans (represents : Represents table calls) {call : Row × Row}
    (letters : ∀ c ∈ call.1, isSmall c) (fits : (beginnings (calls ++ [call])).card ≤ maxnode) :
    ∃ next, handlePinyinHans table call.1 call.2 = some next ∧
      Represents next (calls ++ [call]) := by
  have maps := represents.insert call.1 (some call.2)
  rw [← beginnings_concat, ← lastHans_concat] at maps
  have bound : (table.insertFrom 0 call.1).1.n < maxnode := by
    have card := maps.card
    omega
  have ends := (represents.insertFrom (table.node_nil 0) call.1).2.1
  have inside : (table.insertFrom 0 call.1).2 < maxnode := (maps.node_le ends).trans_lt bound
  refine ⟨⟨(table.insertFrom 0 call.1).1,
    Function.update table.hans (table.insertFrom 0 call.1).2 (some call.2)⟩, ?_, maps⟩
  rw [Pinyin.handlePinyinHans, insert, insertLoop_eq represents.toHolds (table.node_nil 0) letters
    bound, bind_eq_bind, bind_some]
  exact if_pos inside

theorem handleAll_represents (letters : ∀ call ∈ calls, ∀ c ∈ call.1, isSmall c)
    (fits : (beginnings calls).card ≤ maxnode) :
    ∃ table, handleAll PinyinTrie.start calls = some table ∧ Represents table calls := by
  induction calls using List.reverseRecOn with
  | nil => exact ⟨_, rfl, start_represents⟩
  | append_singleton calls call ih =>
    have fewer : (beginnings calls).card ≤ (beginnings (calls ++ [call])).card := by
      rw [beginnings_concat]
      exact Finset.card_le_card Finset.subset_union_left
    obtain ⟨table, handled, represents⟩ :=
      ih (fun call isCall => letters call (mem_append_left _ isCall)) (fewer.trans fits)
    obtain ⟨next, handledNext, representsNext⟩ := represents.handlePinyinHans
      (letters call (mem_append_right _ (mem_singleton_self call))) fits
    refine ⟨next, ?_, representsNext⟩
    rw [handleAll] at handled
    rw [handleAll, foldlM_append, handled]
    simp only [bind_eq_bind, bind_some, foldlM_cons, foldlM_nil, handledNext]
    rfl

/-! ## Lookup -/

/-- The loop of `getnode` follows the string through the trie; for what is no
letter there is no edge. -/
theorem getnodeLoop_eq (holds : trie.Holds words) (letters : ∀ word ∈ words, ∀ c ∈ word, isSmall c)
    (fits : trie.n < maxnode) (s : Row) {word : Row} (isNode : trie.node 0 word = some u)
    (deep : Nat) :
    getnodeLoop trie u deep s = some ((trie.walk u s).1, deep + (trie.walk u s).2) := by
  induction s generalizing word u deep with
  | nil => rfl
  | cons c s ih =>
    have inside : u < maxnode := Nat.lt_of_le_of_lt (holds.node_le isNode) fits
    rw [getnodeLoop, Trie.walk]
    by_cases edge : trie.ch u c = 0
    · rw [if_pos inside, if_pos edge, if_pos edge, ite_self]
      rfl
    have isNext : trie.node 0 (word ++ [c]) = some (trie.ch u c) := by
      rw [Trie.node_concat, isNode, bind_some, if_neg edge]
    have isLetter : isSmall c := by
      have isWord := (holds.mem (word ++ [c])).mpr (by rw [isNext]; rfl)
      exact letters _ isWord c (mem_append_right _ (mem_singleton_self c))
    rw [if_neg (by rw [isLetter]; decide), if_pos inside, if_neg edge, if_neg edge, ih isNext,
      Nat.add_assoc, Nat.add_comm 1]

/-- The bytes of a candidate lie inside the string of characters. -/
theorem candidateBytes_eq (han : Row) (bound : i < 2 ^ 30) (deep : Nat) :
    (if (i : Int) * 2 + 1 < -(2 ^ 31) ∨ 2 ^ 31 ≤ (i : Int) * 2 + 1 then none
      else if (i : Int) * 2 + 1 ≥ han.length then some (deep, none)
      else do
        let c1 ← byteOf han (i * 2)
        let c2 ← byteOf han (i * 2 + 1)
        some (deep, some (c1, c2))) =
      some (deep, do
        let c1 ← han[2 * i]?
        let c2 ← han[2 * i + 1]?
        some (c1, c2)) := by
  have first : byteOf han (i * 2) = han[2 * i]? := by
    rw [byteOf, if_pos (by omega), show ((i : Int) * 2).toNat = 2 * i by omega]
  have second : byteOf han (i * 2 + 1) = han[2 * i + 1]? := by
    rw [byteOf, if_pos (by omega), show ((i : Int) * 2 + 1).toNat = 2 * i + 1 by omega]
  rw [if_neg (by omega), first, second]
  by_cases inside : 2 * i + 1 < han.length
  · rw [if_neg (by omega), getElem?_eq_getElem inside,
      getElem?_eq_getElem (Nat.lt_of_succ_lt inside)]
    rfl
  · rw [if_pos (by omega), getElem?_eq_none (Nat.not_lt.mp inside)]
    cases han[2 * i]? <;> rfl

/-- A lookup in a table asks the map. -/
theorem Represents.getPinyinIthHan (represents : Represents table calls)
    (letters : ∀ call ∈ calls, ∀ c ∈ call.1, isSmall c) (fits : (beginnings calls).card ≤ maxnode)
    (s : Row) (bound : i < 2 ^ 30) :
    ∃ k, LongestBeginning calls s k ∧
      getPinyinIthHan table s i = some (k.length, candidate calls k i) := by
  have holds := represents.toHolds
  have small : ∀ word ∈ beginnings calls, ∀ c ∈ word, isSmall c := by
    intro word isWord c isIn
    rcases mem_beginnings.mp isWord with rfl | ⟨call, isCall, isPrefix⟩
    · cases isIn
    · exact letters call isCall c (isPrefix.subset isIn)
  have inside : table.n < maxnode := by
    have card := holds.card
    omega
  have loop := getnodeLoop_eq holds small inside s (table.node_nil 0) 0
  rw [Nat.zero_add] at loop
  have isNode := table.node_walk 0 s
  have isLongest {start : Row} {v : Nat} (isPrefix : start <+: s)
      (found : table.node 0 start = some v) : start.length ≤ (table.walk 0 s).2 :=
    table.length_le_walk isPrefix found
  have atMost := table.walk_le_length 0 s
  generalize table.walk 0 s = reached at loop isNode isLongest atMost
  obtain ⟨u, deep⟩ := reached
  have length : (s.take deep).length = deep := by
    rw [length_take]
    exact Nat.min_eq_left atMost
  refine ⟨s.take deep, ⟨ take_prefix deep s, ?_, ?_⟩, ?_⟩
  · exact mem_beginnings.mp ((holds.mem _).mpr (by rw [isNode]; rfl))
  · intro other isPrefix ofKey
    obtain ⟨v, found⟩ := isSome_iff_exists.mp
      ((holds.mem other).mp (mem_beginnings.mpr (Or.inr ofKey)))
    rw [length]
    exact isLongest isPrefix found
  · have root : u = 0 ↔ s.take deep = [] := by
      constructor
      · rintro rfl
        exact holds.node_inj isNode rfl
      · intro empty
        rw [empty] at isNode
        exact (some.inj isNode).symm
    rw [Pinyin.getPinyinIthHan, getnode, loop]
    simp only [bind_eq_bind, bind_some, length]
    by_cases isRoot : u = 0
    · have lost : (if u > 0 then if deep = s.length then (1 : Int) else 0 else -1) = -1 :=
        if_neg (by omega)
      rw [candidate, if_pos (root.mp isRoot), if_pos lost]
    · have positive : u > 0 := Nat.pos_of_ne_zero isRoot
      have found : (if u > 0 then if deep = s.length then (1 : Int) else 0 else -1) ≠ -1 := by
        rw [if_pos positive]
        split <;> decide
      have bounded : u < maxnode := Nat.lt_of_le_of_lt (holds.node_le isNode) inside
      rw [if_neg found, if_pos bounded, represents.value _ u isNode, candidate,
        if_neg fun empty => isRoot (root.mpr empty)]
      cases lastHans calls (s.take deep) with
      | none => rfl
      | some han => exact candidateBytes_eq han bound deep

/-- For every sequence of calls whose trie fits into the array, and for every
string, a lookup finds the longest part of the string with which a key begins, and
the candidate stored last for it. -/
theorem pinyin_longest_beginning {calls : List (Row × Row)}
    (letters : ∀ call ∈ calls, call.1 ≠ [] ∧ ∀ c ∈ call.1, isSmall c)
    (fits : (beginnings calls).card ≤ maxnode) :
    ∃ table, handleAll PinyinTrie.start calls = some table ∧
      ∀ (s : Row) (i : Nat), i < 2 ^ 30 →
        ∃ k, LongestBeginning calls s k ∧
          getPinyinIthHan table s i = some (k.length, candidate calls k i) := by
  have small : ∀ call ∈ calls, ∀ c ∈ call.1, isSmall c := fun call isCall =>
    (letters call isCall).2
  obtain ⟨table, handled, represents⟩ := handleAll_represents small fits
  exact ⟨table, handled, fun s i bound => represents.getPinyinIthHan small fits s bound⟩

/-- Characters for `a` and `ai`, the second of which extends the first. -/
def twoEntries : List (Row × Row) :=
  [([97], [176, 162]), ([97, 105], [176, 174, 176, 172])]

theorem pinyin_longest_beginning_twoEntries :
    ∃ table, handleAll PinyinTrie.start twoEntries = some table ∧
      ∀ (s : Row) (i : Nat), i < 2 ^ 30 →
        ∃ k, LongestBeginning twoEntries s k ∧
          getPinyinIthHan table s i = some (k.length, candidate twoEntries k i) :=
  pinyin_longest_beginning (by simp [twoEntries, isSmall]) (by decide)

end XEditor.Pinyin
