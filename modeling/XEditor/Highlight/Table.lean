import XEditor.Gui.Component
import XEditor.Lib.Trie

/-!
# The highlighting table

`highlight.c` enters the words to be highlighted into a trie and reads a row of
text with it.  There are no failure links: a byte that does not continue the word
being matched is dropped together with what has been matched of it.  The words
`#` and `//` match everything behind them as well.

Read by words instead of nodes, the automaton keeps the beginning of a word that
it has matched last.
-/

namespace XEditor.Highlight

open List Option Finset Function Gui Text Trie

/-! ## The source -/

/-- Source `types`. -/
def types : List Row :=
  ["int", "short", "char", "void", "long", "float", "double"].map ascii

/-- Source `reserve`. -/
def reserve : List Row :=
  ["if", "else", "while", "continue", "break", "for", "inline", "struct", "return"].map ascii

/-- Source `special`. -/
def special : List Row :=
  ["#", "//"].map ascii

/-- Source `RGB`. -/
def rgb (r g b : Nat) : Nat :=
  (r >>> 3) <<< 11 ||| (g >>> 2) <<< 5 ||| (b >>> 3)

def typesColor : Nat := rgb 2 100 255

def reserveColor : Nat := rgb 152 1 152

def specialColor : Nat := rgb 0 133 30

/-- The arrays of `highlight.c`. -/
structure HighlightTable extends Trie UInt8 where
  deep : Nat → Nat
  colors : Nat → Nat
  includeAlls : Nat → Bool

def HighlightTable.start : HighlightTable :=
  { Trie.empty with deep := fun _ => 0, colors := fun _ => 0, includeAlls := fun _ => false }

/-- One step of the loop of `insert`: an edge, made if there is none. -/
def HighlightTable.grow (table : HighlightTable) (u : Nat) (c : UInt8) : HighlightTable :=
  if table.ch u c = 0 then
    { table with
      toTrie := table.addEdge u c
      deep := Function.update table.deep (table.n + 1) (table.deep u + 1) }
  else table

/-- The loop of `insert`. -/
def insertLoop (table : HighlightTable) : Nat → Row → HighlightTable × Nat
  | u, [] => (table, u)
  | u, c :: s => insertLoop (table.grow u c) ((table.grow u c).ch u c) s

/-- The end of `insert`: a word that includes what follows stays matched. -/
def HighlightTable.include (table : HighlightTable) (includeAny : Bool) (u : Nat) :
    HighlightTable :=
  if includeAny then
    { table with
      ch := Function.update table.ch u fun _ => u
      includeAlls := Function.update table.includeAlls u true }
  else table

/-- An assignment of `highlight_init`: a word is inserted and its node gets a
color. -/
def addWord (table : HighlightTable) (s : Row) (includeAny : Bool) (color : Nat) :
    HighlightTable :=
  let (table, u) := insertLoop table 0 s
  let table := table.include includeAny u
  { table with colors := Function.update table.colors u color }

/-- The words in the order in which `highlight_init` inserts them. -/
def entries : List (Row × Bool × Nat) :=
  types.map (·, false, typesColor) ++ reserve.map (·, false, reserveColor) ++
    special.map (·, true, specialColor)

/-- Source `highlight_init`. -/
def highlightInit : HighlightTable :=
  entries.foldl (fun table entry => addWord table entry.1 entry.2.1 entry.2.2) .start

/-! ## The automaton over words -/

/-- A string is the beginning of a word, or empty. -/
def IsBeginning (start : Row) : Prop :=
  start = [] ∨ ∃ entry ∈ entries, start <+: entry.1

instance IsBeginning.decidable (start : Row) : Decidable (IsBeginning start) :=
  inferInstanceAs (Decidable (_ ∨ _))

instance decidableMemSpecial (word : Row) : Decidable (word ∈ special) :=
  List.instDecidableMemOfLawfulBEq word special

/-- The color of a word. -/
def colorOf (word : Row) : Nat :=
  if word ∈ special then specialColor
  else if word ∈ reserve then reserveColor
  else if word ∈ types then typesColor else 0

/-- What is matched after a byte, from what was matched before. -/
def follow (word : Row) (c : UInt8) : Row :=
  if word ∈ special then word
  else if IsBeginning (word ++ [c]) then word ++ [c] else []

/-- What is matched at the end of a text. -/
def pending (text : Row) : Row :=
  text.foldl follow []

/-- The table reads words, each at a node of its own. -/
structure Reads (table : HighlightTable) (node : Row → Nat) : Prop where
  root : node [] = 0
  inj : ∀ first second, IsBeginning first → IsBeginning second →
    node first = node second → first = second
  ch : ∀ word, IsBeginning word → ∀ c, table.ch (node word) c = node (follow word c)
  deep : ∀ word, IsBeginning word → table.deep (node word) = word.length
  colors : ∀ word, IsBeginning word → table.colors (node word) = colorOf word
  includeAlls : ∀ word, IsBeginning word →
    table.includeAlls (node word) = decide (word ∈ special)

theorem isBeginning_follow {word : Row} (isBeginning : IsBeginning word) (c : UInt8) :
    IsBeginning (follow word c) := by
  rw [follow]
  split
  · exact isBeginning
  · split
    · assumption
    · exact Or.inl rfl

theorem isBeginning_pending (text : Row) : IsBeginning (pending text) := by
  induction text using List.reverseRecOn with
  | nil => exact Or.inl rfl
  | append_singleton text c ih =>
    rw [pending, foldl_append]
    exact isBeginning_follow ih c

/-! ## Insertion -/

/-- A table is a trie in which some words lead back to themselves. -/
structure Looped (table : HighlightTable) (base : Trie UInt8) (words : Finset Row)
    (loops : Finset Row) : Prop where
  holds : base.Holds words
  inWords : ∀ word ∈ loops, word ∈ words
  n : table.n = base.n
  ch : ∀ word u, base.node 0 word = some u → ∀ c,
    table.ch u c = if word ∈ loops then u else base.ch u c
  deep : ∀ word u, base.node 0 word = some u → table.deep u = word.length
  includeAlls : ∀ word u, base.node 0 word = some u →
    table.includeAlls u = decide (word ∈ loops)
  unusedCh : ∀ u, base.n < u → ∀ c, table.ch u c = 0
  unused : ∀ u, base.n < u → table.includeAlls u = false

section

variable {table : HighlightTable} {base : Trie UInt8} {words loops : Finset Row}
variable {word : Row} {u : Nat}

theorem start_looped : Looped .start empty {[]} ∅ where
  holds := empty_holds
  inWords := fun _ isIn => absurd isIn (Finset.notMem_empty _)
  n := rfl
  ch := fun _ _ _ _ => rfl
  deep := by
    intro word u isNode
    cases word with
    | nil => rfl
    | cons c word => cases isNode
  includeAlls := fun _ _ _ => rfl
  unusedCh := fun _ _ _ => rfl
  unused := fun _ _ => rfl

section

variable (looped : Looped table base words loops) (isNode : base.node 0 word = some u)
include looped isNode

/-- A step of the loop makes the edge that the trie gets. -/
theorem Looped.grow (noLoop : word ∉ loops) (c : UInt8) :
    Looped (table.grow u c) (base.addEdge u c) (insert (word ++ [c]) words) loops ∧
      (table.grow u c).ch u c = (base.addEdge u c).ch u c := by
  obtain ⟨holds, isNext, extended⟩ := looped.holds.addEdge (c := c) isNode
  have same : table.ch u c = base.ch u c := by rw [looped.ch word u isNode, if_neg noLoop]
  have inWords (other : Row) (isLoop : other ∈ loops) : other ∈ insert (word ++ [c]) words :=
    Finset.mem_insert_of_mem (looped.inWords other isLoop)
  by_cases noEdge : base.ch u c = 0
  · have tableEdge : table.ch u c = 0 := same.trans noEdge
    have uBound := looped.holds.node_le isNode
    have new : word ++ [c] ∉ loops := by
      intro isLoop
      have isWord := looped.inWords _ isLoop
      rw [looped.holds.mem, node_concat, isNode, bind_some, if_pos noEdge] at isWord
      cases isWord
    have n := looped.n
    rw [HighlightTable.grow, if_pos tableEdge]
    refine ⟨⟨holds, inWords, ?_, ?_, ?_, ?_, ?_, ?_⟩, ?_⟩
    · rw [addEdge_n tableEdge, addEdge_n noEdge, n]
    · intro other v isOther d
      rw [looped.holds.node_addEdge isNode noEdge] at isOther
      rw [addEdge_ch tableEdge, addEdge_ch noEdge, n]
      split at isOther
      · rename_i isNew
        rw [← some.inj isOther, isNew, if_neg new, if_neg (by omega), if_neg (by omega),
          looped.unusedCh _ (Nat.lt_succ_self _), looped.holds.fresh _ _ (Nat.lt_succ_self _)]
      · by_cases here : v = u ∧ d = c
        · obtain ⟨rfl, rfl⟩ := here
          rw [looped.holds.node_inj isOther isNode, if_neg noLoop, if_pos ⟨rfl, rfl⟩,
            if_pos ⟨rfl, rfl⟩]
        · rw [if_neg here, if_neg here]
          exact looped.ch other v isOther d
    · intro other v isOther
      rw [looped.holds.node_addEdge isNode noEdge] at isOther
      dsimp only
      split at isOther
      · rename_i isNew
        rw [← some.inj isOther, isNew, ← n, update_self, looped.deep word u isNode,
          length_append, length_singleton]
      · have old := looped.holds.node_le isOther
        rw [update_of_ne (by omega)]
        exact looped.deep other v isOther
    · intro other v isOther
      rw [looped.holds.node_addEdge isNode noEdge] at isOther
      split at isOther
      · rename_i isNew
        rw [← some.inj isOther, isNew, looped.unused _ (Nat.lt_succ_self _)]
        exact (decide_eq_false new).symm
      · exact looped.includeAlls other v isOther
    · intro v isUnused d
      rw [addEdge_n noEdge] at isUnused
      rw [addEdge_ch tableEdge, if_neg (by omega)]
      exact looped.unusedCh v (by omega) d
    · intro v isUnused
      rw [addEdge_n noEdge] at isUnused
      exact looped.unused v (by omega)
    · rw [addEdge_ch tableEdge, addEdge_ch noEdge, n]
      simp
  · rw [HighlightTable.grow, if_neg (same ▸ noEdge)]
    rw [addEdge_of_edge noEdge] at holds ⊢
    exact ⟨{ looped with holds := holds, inWords := inWords }, same⟩

/-- The loop inserts the word into the trie. -/
theorem Looped.insertLoop (s : Row)
    (noLoop : ∀ start, start <+: s → start ≠ s → word ++ start ∉ loops) :
    Looped (insertLoop table u s).1 (base.insertFrom u s).1 (words ∪ (word ++ s).inits.toFinset)
        loops ∧
      (insertLoop table u s).2 = (base.insertFrom u s).2 ∧
        (insertLoop table u s).1.colors = table.colors := by
  induction s generalizing table base words word u with
  | nil =>
    have holds := (looped.holds.insertFrom isNode []).1
    refine ⟨{ looped with holds := holds, inWords := ?_ }, rfl, rfl⟩
    exact fun other isLoop => Finset.mem_union_left _ (looped.inWords other isLoop)
  | cons c s ih =>
    have here : word ∉ loops := by
      have first := noLoop [] nil_prefix (by simp)
      rwa [append_nil] at first
    obtain ⟨grown, edge⟩ := looped.grow isNode here c
    have isNext := (looped.holds.addEdge (c := c) isNode).2.1
    obtain ⟨inserted, ends, colors⟩ := ih grown isNext fun start isPrefix isProper => by
      have later := noLoop (c :: start) (cons_prefix_cons.mpr ⟨rfl, isPrefix⟩)
        (by simpa using isProper)
      rwa [append_assoc]
    have holds := (looped.holds.insertFrom isNode (c :: s)).1
    have kept : (table.grow u c).colors = table.colors := by
      rw [HighlightTable.grow]
      split <;> rfl
    rw [Highlight.insertLoop, edge]
    refine ⟨{ inserted with holds := holds, inWords := ?_ }, ends, colors.trans kept⟩
    exact fun other isLoop => Finset.mem_union_left _ (looped.inWords other isLoop)

end

/-- A word is added whose proper beginnings match nothing behind them. -/
theorem Looped.addWord {map : Row → Nat} (looped : Looped table base words loops)
    (maps : base.Maps words table.colors map 0) (s : Row) (includeAny : Bool) (color : Nat)
    (noLoop : ∀ start, start <+: s → start ≠ s → start ∉ loops) :
    Looped (addWord table s includeAny color) (base.insertFrom 0 s).1
        (words ∪ s.inits.toFinset) (if includeAny then insert s loops else loops) ∧
      (base.insertFrom 0 s).1.Maps (words ∪ s.inits.toFinset)
        (addWord table s includeAny color).colors (update map s color) 0 := by
  obtain ⟨inserted, ends, colors⟩ := looped.insertLoop (base.node_nil 0) s noLoop
  have isNode := (looped.holds.insertFrom (base.node_nil 0) s).2.1
  have maps := maps.insert s color
  rw [nil_append] at inserted isNode
  rw [← ends, ← colors] at maps
  rw [← ends] at isNode
  rw [Highlight.addWord]
  generalize Highlight.insertLoop table 0 s = next at inserted ends colors maps isNode ⊢
  obtain ⟨next, v⟩ := next
  dsimp only at inserted ends maps isNode ⊢
  cases includeAny with
  | false => exact ⟨{ inserted with }, maps⟩
  | true =>
    have vBound := inserted.holds.node_le isNode
    have isWord {other : Row} {w : Nat}
        (isOther : (base.insertFrom 0 s).1.node 0 other = some w) : w = v ↔ other = s := by
      constructor
      · rintro rfl
        exact inserted.holds.node_inj isOther isNode
      · rintro rfl
        exact some.inj (isOther.symm.trans isNode)
    refine ⟨⟨inserted.holds, ?_, inserted.n, ?_, inserted.deep, ?_, ?_, ?_⟩, maps⟩
    · intro other isLoop
      rcases Finset.mem_insert.mp isLoop with rfl | isOld
      · exact (inserted.holds.mem _).mpr (by rw [isNode]; rfl)
      · exact inserted.inWords other isOld
    · intro other w isOther c
      simp only [HighlightTable.include, if_true, update_apply, Finset.mem_insert, isWord isOther]
      by_cases here : other = s
      · rw [if_pos here, if_pos (Or.inl here)]
        exact ((isWord isOther).mpr here).symm
      · simp only [here, false_or, if_false]
        exact inserted.ch other w isOther c
    · intro other w isOther
      simp only [HighlightTable.include, if_true, update_apply, Finset.mem_insert,
        isWord isOther, inserted.includeAlls other w isOther]
      by_cases here : other = s
      · simp [here]
      · simp [here]
    · intro w isUnused c
      have other : w ≠ v := by omega
      simp only [HighlightTable.include, if_true]
      rw [update_of_ne other]
      exact inserted.unusedCh w isUnused c
    · intro w isUnused
      have other : w ≠ v := by omega
      simp only [HighlightTable.include, if_true]
      rw [update_of_ne other]
      exact inserted.unused w isUnused

end

/-! ## The whole table -/

/-- The words that match what follows them. -/
def loopsOf (added : List (Row × Bool × Nat)) : Finset Row :=
  ((added.filter (·.2.1)).map Prod.fst).toFinset

/-- The color each word has got last. -/
def colorsOf (added : List (Row × Bool × Nat)) (map : Row → Nat) : Row → Nat :=
  added.foldl (fun map entry => Function.update map entry.1 entry.2.2) map

theorem colorsOf_words (words : List Row) (includeAny : Bool) (color : Nat) (map : Row → Nat)
    (word : Row) :
    colorsOf (words.map (·, includeAny, color)) map word =
      if word ∈ words then color else map word := by
  induction words generalizing map with
  | nil => rfl
  | cons first words ih =>
    refine (ih _).trans ?_
    by_cases later : word ∈ words
    · rw [if_pos later, if_pos (List.mem_cons_of_mem first later)]
    · simp [later, update_apply]

theorem colorsOf_entries (word : Row) : colorsOf entries (fun _ => 0) word = colorOf word := by
  rw [entries, colorsOf, foldl_append, foldl_append]
  change colorsOf _ (colorsOf _ (colorsOf _ _)) word = _
  rw [colorsOf_words, colorsOf_words, colorsOf_words, colorOf]

theorem loopsOf_concat (added : List (Row × Bool × Nat)) (entry : Row × Bool × Nat) :
    loopsOf (added ++ [entry]) =
      if entry.2.1 then insert entry.1 (loopsOf added) else loopsOf added := by
  split
  · rename_i isAny
    simp [isAny, loopsOf, Finset.union_comm]
  · rename_i notAny
    simp [notAny, loopsOf]

/-- After the words of a list in which no proper beginning of a word matches what
follows it. -/
theorem addWords_looped {added : List (Row × Bool × Nat)}
    (noLoop : ∀ entry ∈ added, ∀ start, start <+: entry.1 → start ≠ entry.1 →
      start ∉ loopsOf added) :
    ∃ base : Trie UInt8, ∃ table,
      table = added.foldl (fun table entry => addWord table entry.1 entry.2.1 entry.2.2) .start ∧
        Looped table base (insert [] (added.flatMap fun entry => entry.1.inits).toFinset)
          (loopsOf added) ∧
        base.Maps (insert [] (added.flatMap fun entry => entry.1.inits).toFinset) table.colors
          (colorsOf added fun _ => 0) 0 := by
  induction added using List.reverseRecOn with
  | nil =>
    refine ⟨empty, .start, rfl, start_looped, empty_holds, ?_, ?_, ?_⟩
    · exact fun _ _ _ => rfl
    · exact fun _ _ => rfl
    · exact fun _ _ => rfl
  | append_singleton added entry ih =>
    have fewer {start : Row} (isLoop : start ∈ loopsOf added) :
        start ∈ loopsOf (added ++ [entry]) := by
      rw [loopsOf_concat]
      split
      · exact Finset.mem_insert_of_mem isLoop
      · exact isLoop
    obtain ⟨base, table, isTable, looped, maps⟩ := ih
      fun other isIn start isPrefix isProper isLoop =>
        noLoop other (mem_append_left _ isIn) start isPrefix isProper (fewer isLoop)
    obtain ⟨loopedNext, mapsNext⟩ := looped.addWord maps entry.1 entry.2.1 entry.2.2
      fun start isPrefix isProper isLoop =>
        noLoop entry (by simp) start isPrefix isProper (fewer isLoop)
    have words : insert [] (added.flatMap fun entry => entry.1.inits).toFinset ∪
        entry.1.inits.toFinset =
          insert [] ((added ++ [entry]).flatMap fun entry => entry.1.inits).toFinset := by
      simp [toFinset_append, Finset.insert_union]
    have colors : update (colorsOf added fun _ => 0) entry.1 entry.2.2 =
        colorsOf (added ++ [entry]) fun _ => 0 := by
      rw [colorsOf, colorsOf, foldl_append]
      rfl
    rw [words] at loopedNext mapsNext
    rw [← loopsOf_concat] at loopedNext
    rw [colors] at mapsNext
    refine ⟨_, _, ?_, loopedNext, mapsNext⟩
    rw [foldl_append, ← isTable]
    rfl

/-- The table of `highlight_init` reads words. -/
theorem highlightInit_reads : ∃ node, Reads highlightInit node := by
  have loops : loopsOf entries = special.toFinset := by decide
  have noLoop : ∀ entry ∈ entries, ∀ start ∈ entry.1.inits, start ≠ entry.1 →
      start ∉ loopsOf entries := by
    decide
  obtain ⟨base, table, rfl, looped, maps⟩ := addWords_looped fun entry isIn start isPrefix =>
    noLoop entry isIn start ((mem_inits _ _).mpr isPrefix)
  have isWord (word : Row) : IsBeginning word ↔ (base.node 0 word).isSome := by
    rw [← looped.holds.mem]
    simp [IsBeginning]
  have isNode {word : Row} (isIn : IsBeginning word) :
      base.node 0 word = some ((base.node 0 word).getD 0) := by
    obtain ⟨u, found⟩ := isSome_iff_exists.mp ((isWord word).mp isIn)
    rw [found]
    rfl
  have isLoop (word : Row) : word ∈ loopsOf entries ↔ word ∈ special := by
    rw [loops, List.mem_toFinset]
  refine ⟨fun word => (base.node 0 word).getD 0, rfl, ?_, ?_, ?_, ?_, ?_⟩
  · intro first second isFirst isSecond same
    have firstNode := isNode isFirst
    rw [same] at firstNode
    exact looped.holds.node_inj firstNode (isNode isSecond)
  · intro word isIn c
    refine (looped.ch word _ (isNode isIn) c).trans ?_
    rw [follow]
    by_cases isSpecial : word ∈ special
    · rw [if_pos isSpecial, if_pos ((isLoop word).mpr isSpecial)]
    rw [if_neg isSpecial, if_neg fun loop => isSpecial ((isLoop word).mp loop)]
    have next := base.node_concat 0 word c
    rw [isNode isIn, bind_some] at next
    split
    · rename_i isNext
      rw [isNode isNext] at next
      split at next
      · cases next
      · exact (some.inj next).symm
    · rename_i noNext
      by_contra edge
      rw [if_neg (show base.ch _ c ≠ 0 from edge)] at next
      exact noNext ((isWord _).mpr (by rw [next]; rfl))
  · exact fun word isIn => looped.deep word _ (isNode isIn)
  · intro word isIn
    rw [← colorsOf_entries]
    exact maps.value word _ (isNode isIn)
  · intro word isIn
    refine (looped.includeAlls word _ (isNode isIn)).trans ?_
    exact decide_eq_decide.mpr (isLoop word)

end XEditor.Highlight
