import XEditor.Lib.Walk
import XEditor.Text.Characters
import XEditor.Text.Search

/-!
# Walking through a text with the arrow keys

`move_to_next_char` and `move_to_previous_char` change the column by one and
then align it.  In a text of whole characters the two of them walk through the
character boundaries in document order and back.
-/

namespace XEditor.Text

open List Option Buffer Pairing Walk

/-! ## The boundaries of a text -/

/-- The boundaries of the rest of a row that starts at a column: before each byte
of its own, before each character of two bytes, and behind the last one. -/
def rowBoundaries : (col : Nat) → Row → List Nat
  | col, [] => [col]
  | col, [_] => [col, col + 1]
  | col, first :: second :: rest =>
    col :: if isHan first then rowBoundaries (col + 2) rest
      else rowBoundaries (col + 1) (second :: rest)

/-- The boundaries of the rows from one on, row and column, in document order. -/
def boundariesFrom : (r : Nat) → List Row → List (Nat × Nat)
  | _, [] => []
  | r, row :: rows => (rowBoundaries 0 row).map (r, ·) ++ boundariesFrom (r + 1) rows

/-- The boundaries of a text. -/
def boundaries (rows : List Row) : List (Nat × Nat) :=
  boundariesFrom 0 rows

theorem rowBoundaries_char {char : Row} (isChar : IsChar isHan char) (col : Nat) (rest : Row) :
    rowBoundaries col (char ++ rest) = col :: rowBoundaries (col + char.length) rest := by
  cases isChar with
  | single notHan =>
    cases rest with
    | nil => rfl
    | cons second rest =>
      rw [singleton_append, rowBoundaries, if_neg (by simp [notHan])]
      rfl
  | pair firstHan secondHan =>
    rw [cons_append, cons_append, rowBoundaries, if_pos firstHan]
    rfl

/-- The first boundary is the column itself. -/
theorem exists_rowBoundaries_cons (col : Nat) (row : Row) :
    ∃ later, rowBoundaries col row = col :: later := by
  match row with
  | [] | [_] | _ :: _ :: _ => exact ⟨_, rfl⟩

/-- The boundaries behind a place: those of the rest of its row and those of the
rows below. -/
def boundariesBehind (r col : Nat) (right : Row) (below : List Row) : List (Nat × Nat) :=
  (rowBoundaries col right).map (r, ·) ++ boundariesFrom (r + 1) below

theorem boundaries_cons (row : Row) (rows : List Row) :
    boundaries (row :: rows) = boundariesBehind 0 0 row rows :=
  rfl

theorem boundariesFrom_cons (r : Nat) (row : Row) (rows : List Row) :
    boundariesFrom r (row :: rows) = boundariesBehind r 0 row rows :=
  rfl

theorem boundariesBehind_char {char : Row} (isChar : IsChar isHan char) (r col : Nat) (right : Row)
    (below : List Row) :
    boundariesBehind r col (char ++ right) below =
      (r, col) :: boundariesBehind r (col + char.length) right below := by
  rw [boundariesBehind, rowBoundaries_char isChar]
  rfl

theorem exists_boundariesBehind_cons (r col : Nat) (right : Row) (below : List Row) :
    ∃ later, boundariesBehind r col right below = (r, col) :: later := by
  obtain ⟨later, first⟩ := exists_rowBoundaries_cons col right
  exact ⟨_, by rw [boundariesBehind, first]; rfl⟩

/-! ## Which places are boundaries -/

/-- A list of whole characters is empty or starts with a character. -/
theorem paired_cases {row : Row} (paired : Paired isHan row) :
    row = [] ∨ ∃ char rest, row = char ++ rest ∧ IsChar isHan char ∧ Paired isHan rest := by
  cases row with
  | nil => exact .inl rfl
  | cons first rest =>
    right
    cases han : isHan first with
    | false =>
      exact ⟨[first], rest, rfl, .single han, (paired_cons_unmarked_iff han rest).mp paired⟩
    | true =>
      obtain ⟨second, after, rfl, secondHan, afterPaired⟩ := paired.cons_marked han
      exact ⟨[first, second], after, rfl, .pair han secondHan, afterPaired⟩

/-- Induction over the characters of a row. -/
@[elab_as_elim]
theorem paired_induction {motive : (row : Row) → Paired isHan row → Prop}
    (nil : motive [] paired_nil)
    (char : ∀ char rest (isChar : IsChar isHan char) (restPaired : Paired isHan rest),
      motive rest restPaired → motive (char ++ rest) (isChar.paired.append restPaired))
    {row : Row} (paired : Paired isHan row) : motive row paired := by
  induction length : row.length using Nat.strong_induction_on generalizing row with
  | _ n ih =>
    subst length
    rcases paired_cases paired with rfl | ⟨first, rest, rfl, isChar, restPaired⟩
    · exact nil
    have shorter : rest.length < (first ++ rest).length := by
      have positive := isChar.length_pos
      rw [length_append]
      omega
    exact char first rest isChar restPaired (ih _ shorter restPaired rfl)

/-- A character is not cut in two by whole characters. -/
theorem length_le_of_paired_take {char rest : Row} (isChar : IsChar isHan char) {count : Nat}
    (positive : 0 < count) (paired : Paired isHan ((char ++ rest).take count)) :
    char.length ≤ count := by
  cases isChar with
  | single notHan => exact positive
  | pair firstHan secondHan =>
    by_contra short
    rw [length_cons, length_singleton] at short
    obtain rfl : count = 1 := by omega
    obtain ⟨partner, after, none, -⟩ := paired.cons_marked firstHan
    contradiction

/-- The boundaries of a row are the columns that have whole characters before
them. -/
theorem mem_rowBoundaries_iff {row : Row} (paired : Paired isHan row) (col c : Nat) :
    c ∈ rowBoundaries col row ↔
      col ≤ c ∧ c ≤ col + row.length ∧ Paired isHan (row.take (c - col)) := by
  induction paired using paired_induction generalizing col with
  | nil =>
    rw [rowBoundaries, mem_singleton, take_nil, length_nil]
    refine ⟨?_, fun between => by omega⟩
    rintro rfl
    exact ⟨Nat.le_refl _, Nat.le_refl _, paired_nil⟩
  | char char rest isChar restPaired ih =>
    rw [rowBoundaries_char isChar, mem_cons, ih, length_append]
    constructor
    · rintro (rfl | ⟨behind, inside, restTaken⟩)
      · rw [Nat.sub_self]
        exact ⟨Nat.le_refl _, Nat.le_add_right _ _, paired_nil⟩
      · have split : c - col = char.length + (c - (col + char.length)) := by omega
        rw [split, take_length_add_append]
        exact ⟨by omega, by omega, isChar.paired.append restTaken⟩
    · rintro ⟨behind, inside, taken⟩
      by_cases here : c = col
      · exact .inl here
      right
      have whole := length_le_of_paired_take isChar (by omega) taken
      have split : c - col = char.length + (c - (col + char.length)) := by omega
      rw [split, take_length_add_append] at taken
      exact ⟨by omega, by omega, taken.of_append_right isChar.paired⟩

theorem mem_boundariesFrom_iff {rows : List Row} (paired : ∀ row ∈ rows, Paired isHan row)
    (first r c : Nat) :
    (r, c) ∈ boundariesFrom first rows ↔
      first ≤ r ∧ ∃ row, rows[r - first]? = some row ∧ c ≤ row.length ∧
        Paired isHan (row.take c) := by
  induction rows generalizing first with
  | nil => simp [boundariesFrom]
  | cons row rows ih =>
    have later := ih (fun other isRow => paired other (mem_cons_of_mem row isRow))
      (first + 1)
    have here := mem_rowBoundaries_iff (paired row mem_cons_self) 0 c
    rw [Nat.zero_add, Nat.sub_zero] at here
    rw [boundariesFrom, mem_append, later, List.mem_map]
    constructor
    · rintro (⟨col, isBoundary, same⟩ | ⟨behind, line, read, boundary⟩)
      · obtain ⟨rfl, rfl⟩ := Prod.mk.inj same
        rw [Nat.sub_self]
        exact ⟨Nat.le_refl _, row, rfl, (here.mp isBoundary).2⟩
      · refine ⟨by omega, line, ?_, boundary⟩
        rw [show r - first = r - (first + 1) + 1 by omega]
        exact read
    · rintro ⟨behind, line, read, boundary⟩
      by_cases same : r = first
      · subst same
        rw [Nat.sub_self, getElem?_cons_zero] at read
        cases read
        exact .inl ⟨c, here.mpr ⟨Nat.zero_le c, boundary⟩, rfl⟩
      · rw [show r - first = r - (first + 1) + 1 by omega, getElem?_cons_succ] at read
        exact .inr ⟨by omega, line, read, boundary⟩

/-- Each boundary is listed once, in document order. -/
theorem pairwise_rowBoundaries {row : Row} (paired : Paired isHan row) (col : Nat) :
    (rowBoundaries col row).Pairwise (· < ·) := by
  induction paired using paired_induction generalizing col with
  | nil => exact pairwise_singleton _ _
  | char char rest isChar restPaired ih =>
    rw [rowBoundaries_char isChar, pairwise_cons]
    refine ⟨?_, ih _⟩
    intro later isLater
    have behind := ((mem_rowBoundaries_iff restPaired _ _).mp isLater).1
    have positive := isChar.length_pos
    omega

theorem pairwise_boundariesFrom {rows : List Row} (paired : ∀ row ∈ rows, Paired isHan row)
    (first : Nat) : ((boundariesFrom first rows).map toLex).Pairwise (· < ·) := by
  induction rows generalizing first with
  | nil => exact List.Pairwise.nil
  | cons row rows ih =>
    have below : ∀ other ∈ rows, Paired isHan other :=
      fun other isRow => paired other (mem_cons_of_mem row isRow)
    rw [boundariesFrom, map_append, pairwise_append]
    refine ⟨?_, ih below (first + 1), ?_⟩
    · rw [List.map_map, pairwise_map]
      apply (pairwise_rowBoundaries (paired row mem_cons_self) 0).imp
      intro here there before
      exact Prod.Lex.lt_iff.mpr (.inr ⟨rfl, before⟩)
    · intro here isHere there inRows
      rw [List.map_map, List.mem_map] at isHere
      obtain ⟨col, -, rfl⟩ := isHere
      obtain ⟨⟨r, c⟩, isThere, rfl⟩ := List.mem_map.mp inRows
      have behind := ((mem_boundariesFrom_iff below _ _ _).mp isThere).1
      exact Prod.Lex.lt_iff.mpr (.inl behind)

/-! ## Neighbours -/

/-- The two moves lead from one place to another one and back. -/
structure Neighbours (text : Textframe) (here there : Nat × Nat) : Prop where
  forward : moveToNextChar (cursorAt text here) = some (cursorAt text there)
  back : moveToPreviousChar (cursorAt text there) = some (cursorAt text here)

section

variable {text next : Textframe} {above below : List Row} {left right char : Row}

/-- A move changes nothing but the cursor. -/
theorem moveToNextChar_frame (moved : moveToNextChar text = some next) :
    next = { text with cursorRow := next.cursorRow, cursorCol := next.cursorCol } := by
  obtain ⟨line, -, moved⟩ := bind_eq_some_iff.mp moved
  rw [some.injEq] at moved
  rw [← moved]
  split_ifs <;> rfl

theorem moveToPreviousChar_frame (moved : moveToPreviousChar text = some next) :
    next = { text with cursorRow := next.cursorRow, cursorCol := next.cursorCol } := by
  rw [moveToPreviousChar] at moved
  split_ifs at moved
  · cases moved
    rfl
  · obtain ⟨line, -, moved⟩ := bind_eq_some_iff.mp moved
    cases moved
    rfl
  · cases moved
    rfl

theorem Located.eq_cursorAt (located : Located next above left right below)
    (frame : next = { text with cursorRow := next.cursorRow, cursorCol := next.cursorCol }) :
    next = cursorAt text (above.length, left.length) := by
  rw [frame, located.row_eq, located.col_eq]
  rfl

theorem located_cursorAt (data_eq : text.data = above ++ (left ++ right) :: below) :
    Located (cursorAt text (above.length, left.length)) above left right below :=
  Located.at_cursor data_eq

/-- A character lies between two neighbours. -/
theorem neighbours_char (isChar : IsChar isHan char) (leftPaired : Paired isHan left)
    (data_eq : text.data = above ++ (left ++ (char ++ right)) :: below) :
    Neighbours text (above.length, left.length) (above.length, left.length + char.length) := by
  have behind : text.data = above ++ (left ++ char ++ right) :: below := by
    rw [append_assoc]
    exact data_eq
  rw [← length_append]
  constructor
  · obtain ⟨moved, called, movedLocated⟩ := (located_cursorAt data_eq).stepForward isChar leftPaired
    rw [called, movedLocated.eq_cursorAt (moveToNextChar_frame called)]
    rfl
  · obtain ⟨moved, called, movedLocated⟩ := (located_cursorAt behind).stepBack isChar leftPaired
    rw [called, movedLocated.eq_cursorAt (moveToPreviousChar_frame called)]
    rfl

/-- So does the break between two rows. -/
theorem neighbours_break {row below : Row} {rows : List Row}
    (data_eq : text.data = above ++ row :: below :: rows) :
    Neighbours text (above.length, row.length) (above.length + 1, 0) := by
  have atEnd : text.data = above ++ (row ++ []) :: below :: rows := by
    rw [append_nil]
    exact data_eq
  have atStart : text.data = above ++ [row] ++ ([] ++ below) :: rows := by
    rw [data_eq, append_assoc]
    rfl
  have start : (above.length + 1, 0) = ((above ++ [row]).length, ([] : Row).length) := by
    rw [length_append]
    rfl
  constructor
  · obtain ⟨moved, called, movedLocated⟩ := (located_cursorAt atEnd).moveToNextChar_break
    rw [called, movedLocated.eq_cursorAt (moveToNextChar_frame called), start]
    rfl
  · rw [start]
    obtain ⟨moved, called, movedLocated⟩ := (located_cursorAt atStart).moveToPreviousChar_break
    rw [called, movedLocated.eq_cursorAt (moveToPreviousChar_frame called)]
    rfl

end

/-! ## The walk -/

/-- The end of the last row of a text whose rows from an index on are given. -/
def endFrom (r : Nat) (row : Row) (below : List Row) : Nat × Nat :=
  (r + below.length, (below.getLast?.getD row).length)

theorem endFrom_cons (r : Nat) (row next : Row) (below : List Row) :
    endFrom r row (next :: below) = endFrom (r + 1) next below := by
  rw [endFrom, getLast?_cons, length_cons]
  congr 1
  omega

section

variable {text : Textframe} {above below : List Row} {left right : Row}

/-- Every place of the list and the one behind it are neighbours, and the list
ends at a given place. -/
structure LeadsTo (text : Textframe) (places : List (Nat × Nat)) (last : Nat × Nat) : Prop where
  chain : places.IsChain (Neighbours text)
  ends : places.getLast? = some last

theorem LeadsTo.cons {here there last : Nat × Nat} {later : List (Nat × Nat)}
    (leads : LeadsTo text (there :: later) last) (neighbours : Neighbours text here there) :
    LeadsTo text (here :: there :: later) last where
  chain := isChain_cons_cons.mpr ⟨neighbours, leads.chain⟩
  ends := by
    exact leads.ends

/-- From a place in a row the boundaries lead where they lead from the end of the
row. -/
theorem leadsTo_row {last : Nat × Nat} (leftPaired : Paired isHan left)
    (rightPaired : Paired isHan right) (data_eq : text.data = above ++ (left ++ right) :: below)
    (atEnd : LeadsTo text
      ((above.length, (left ++ right).length) :: boundariesFrom (above.length + 1) below) last) :
    LeadsTo text (boundariesBehind above.length left.length right below) last := by
  induction rightPaired using paired_induction generalizing left with
  | nil =>
    rw [append_nil] at atEnd
    exact atEnd
  | char char rest isChar restPaired ih =>
    have later : LeadsTo text
        (boundariesBehind above.length (left ++ char).length rest below) last := by
      apply ih (leftPaired.append isChar.paired)
      · rw [append_assoc]
        exact data_eq
      · rw [append_assoc]
        exact atEnd
    rw [length_append] at later
    obtain ⟨places, places_eq⟩ :=
      exists_boundariesBehind_cons above.length (left.length + char.length) rest below
    rw [boundariesBehind_char isChar, places_eq]
    rw [places_eq] at later
    exact later.cons (neighbours_char isChar leftPaired data_eq)

/-- They lead to the end of the text. -/
theorem leadsTo_endFrom (leftPaired : Paired isHan left) (rightPaired : Paired isHan right)
    (belowPaired : ∀ row ∈ below, Paired isHan row)
    (data_eq : text.data = above ++ (left ++ right) :: below) :
    LeadsTo text (boundariesBehind above.length left.length right below)
      (endFrom above.length (left ++ right) below) := by
  induction below generalizing above left right with
  | nil =>
    apply leadsTo_row leftPaired rightPaired data_eq
    exact ⟨isChain_singleton _, rfl⟩
  | cons next below ih =>
    apply leadsTo_row leftPaired rightPaired data_eq
    have next_eq : text.data = above ++ [left ++ right] ++ ([] ++ next) :: below := by
      rw [data_eq, append_assoc]
      rfl
    have later := ih paired_nil (belowPaired next mem_cons_self)
      (fun row isRow => belowPaired row (mem_cons_of_mem next isRow)) next_eq
    rw [length_append, length_singleton, length_nil, nil_append,
      ← endFrom_cons above.length (left ++ right)] at later
    rw [boundariesFrom_cons]
    obtain ⟨places, places_eq⟩ := exists_boundariesBehind_cons (above.length + 1) 0 next below
    rw [places_eq] at later ⊢
    exact later.cons (neighbours_break data_eq)

end

/-- The end of a text. -/
def textEnd (rows : List Row) : Nat × Nat :=
  (rows.length - 1, (rows.getLast?.getD []).length)

theorem endFrom_zero (row : Row) (rows : List Row) :
    endFrom 0 row rows = textEnd (row :: rows) := by
  rw [endFrom, textEnd, getLast?_cons, Nat.zero_add]
  rfl

theorem head?_boundaries {text : Textframe} (nonempty : text.data ≠ []) :
    (boundaries text.data).head? = some (0, 0) := by
  obtain ⟨row, below, data_eq⟩ := exists_cons_of_ne_nil nonempty
  obtain ⟨later, first⟩ := exists_boundariesBehind_cons 0 0 row below
  rw [data_eq, boundaries_cons, first]
  rfl

section

variable {text : Textframe} (nonempty : text.data ≠ [])
  (rows : ∀ row ∈ text.data, Paired isHan row)
include nonempty rows

theorem leadsTo_textEnd : LeadsTo text (boundaries text.data) (textEnd text.data) := by
  obtain ⟨row, below, data_eq⟩ := exists_cons_of_ne_nil nonempty
  rw [data_eq] at rows
  have whole : text.data = [] ++ ([] ++ row) :: below := data_eq
  have leads := leadsTo_endFrom paired_nil (rows row mem_cons_self)
    (fun other isRow => rows other (mem_cons_of_mem row isRow)) whole
  rw [data_eq, ← endFrom_zero]
  exact leads

theorem walks_forward : Walks moveToNextChar ((boundaries text.data).map (cursorAt text)) := by
  have leads := leadsTo_textEnd nonempty rows
  constructor
  · rw [isChain_map]
    exact leads.chain.imp fun _ _ neighbours => neighbours.forward
  intro last isLast
  rw [getLast?_map, leads.ends] at isLast
  cases isLast
  obtain ⟨above, row, data_eq⟩ := eq_nil_or_concat' text.data |>.resolve_left nonempty
  have atEnd : text.data = above ++ (row ++ []) :: [] := by
    rw [append_nil]
    exact data_eq
  have place : textEnd text.data = (above.length, row.length) := by
    rw [data_eq, textEnd, length_append, getLast?_concat]
    rfl
  rw [place]
  exact (located_cursorAt atEnd).moveToNextChar_last

theorem walks_back :
    Walks moveToPreviousChar ((boundaries text.data).map (cursorAt text)).reverse := by
  have leads := leadsTo_textEnd nonempty rows
  constructor
  · rw [isChain_reverse, isChain_map]
    exact leads.chain.imp fun _ _ neighbours => neighbours.back
  intro last isLast
  rw [List.getLast?_reverse, head?_map, head?_boundaries nonempty] at isLast
  cases isLast
  obtain ⟨row, below, data_eq⟩ := exists_cons_of_ne_nil nonempty
  have atStart : text.data = [] ++ ([] ++ row) :: below := data_eq
  exact (located_cursorAt atStart).moveToPreviousChar_first

end

theorem cursorAt_injective (text : Textframe) : Function.Injective (cursorAt text) := by
  intro here there same
  rw [cursorAt, cursorAt, Textframe.mk.injEq, Int.natCast_inj, Int.natCast_inj] at same
  exact Prod.ext same.2.1 same.2.2.1

/-- A walk through the places of a list, from its first one on. -/
theorem steps_cursorAt {text : Textframe} {next : Textframe → Option Textframe}
    {places : List (Nat × Nat)} {start : Nat × Nat} (first : places.head? = some start)
    (walks : Walks next (places.map (cursorAt text))) (n : Nat) :
    steps next n (cursorAt text start) =
      (places[min n (places.length - 1)]?).map (cursorAt text) := by
  cases places with
  | nil => contradiction
  | cons place later =>
    cases first
    rw [walks.steps_eq, length_map, ← map_cons, getElem?_map]
    rfl

/-- The arrow keys walk through the characters of a text.  To the right they pass
every boundary once, in document order, and stay at the end; to the left they
pass them in the reverse order and stay at the start.  Except where a move
stays, each of the two undoes the other. -/
theorem arrows_walk_boundaries {text : Textframe} (nonempty : text.data ≠ [])
    (rows : ∀ row ∈ text.data, Paired isHan row) :
    (∀ r c, (r, c) ∈ boundaries text.data ↔
      ∃ row, text.data[r]? = some row ∧ c ≤ row.length ∧ Paired isHan (row.take c)) ∧
    ((boundaries text.data).map toLex).Pairwise (· < ·) ∧
    (∀ n, steps moveToNextChar n (cursorAt text (0, 0)) =
      ((boundaries text.data)[min n ((boundaries text.data).length - 1)]?).map
        (cursorAt text)) ∧
    (∀ n, steps moveToPreviousChar n (cursorAt text (textEnd text.data)) =
      ((boundaries text.data).reverse[min n ((boundaries text.data).length - 1)]?).map
        (cursorAt text)) ∧
    (∀ place ∈ boundaries text.data, place ≠ textEnd text.data →
      (moveToNextChar (cursorAt text place)).bind moveToPreviousChar =
        some (cursorAt text place)) ∧
    ∀ place ∈ boundaries text.data, place ≠ (0, 0) →
      (moveToPreviousChar (cursorAt text place)).bind moveToNextChar =
        some (cursorAt text place) := by
  have first := head?_boundaries nonempty
  have last := (leadsTo_textEnd nonempty rows).ends
  have forward := walks_forward nonempty rows
  have back := walks_back nonempty rows
  refine ⟨?_, pairwise_boundariesFrom rows 0, steps_cursorAt first forward, ?_, ?_, ?_⟩
  · intro r c
    have isBoundary := mem_boundariesFrom_iff rows 0 r c
    rwa [and_iff_right (Nat.zero_le r), Nat.sub_zero] at isBoundary
  · intro n
    rw [← map_reverse] at back
    have reversed : (boundaries text.data).reverse.head? = some (textEnd text.data) := by
      rw [List.head?_reverse, last]
    rw [steps_cursorAt reversed back, length_reverse]
  · intro place isPlace notEnd
    apply forward.previous_next back (List.mem_map_of_mem isPlace)
    intro isLast
    rw [getLast?_map, last, map_some, mem_some_iff] at isLast
    exact notEnd (cursorAt_injective text isLast).symm
  · intro place isPlace notStart
    apply forward.next_previous back (List.mem_map_of_mem isPlace)
    intro isFirst
    rw [head?_map, first, map_some, mem_some_iff] at isFirst
    exact notStart (cursorAt_injective text isFirst).symm

/-- A row with a letter and a character of two bytes, and a row with a letter. -/
def mixedRows : Textframe where
  data := [[97, 176, 161], [98]]
  cursorRow := 0
  cursorCol := 0
  maxrowCapacity := 2

theorem arrows_walk_mixedRows :
    boundaries mixedRows.data = [(0, 0), (0, 1), (0, 3), (1, 0), (1, 1)] ∧
      ∀ n, steps moveToNextChar n (cursorAt mixedRows (0, 0)) =
        ((boundaries mixedRows.data)[min n 4]?).map (cursorAt mixedRows) :=
  ⟨by decide, (arrows_walk_boundaries (by decide) (by decide)).2.2.1⟩

end XEditor.Text
