import XEditor.Kernel.Draw

/-!
# Arguments of the drawing system calls

Source `syscall.c` fetches the arguments of a system call from the stack of the
calling process and checks them against the size of the process; the wrappers in
`sysdraw.c` pass them on to the drawing routines.

For each routine with a colour or glyph array stands the list of the bytes of
this array that it reads, also for pixels it does not draw.
-/

namespace XEditor.Kernel

open List Option Grid

/-- The calling process: its size, its saved stack pointer, its memory. -/
structure Proc where
  sz : BitVec 32
  esp : BitVec 32
  memory : Memory

/-- Source `fetchint`. -/
def fetchint (proc : Proc) (addr : BitVec 32) : Option (BitVec 32) :=
  if addr ≥ proc.sz ∨ addr + 4 > proc.sz then none else some (wordAt proc.memory addr)

/-- Source `argint`. -/
def argint (proc : Proc) (n : Nat) : Option (BitVec 32) :=
  fetchint proc (proc.esp + 4 + 4 * BitVec.ofNat 32 n)

/-- Source `argptr`. -/
def argptr (proc : Proc) (n : Nat) (size : BitVec 32) : Option (BitVec 32) := do
  let i ← argint proc n
  if i ≥ proc.sz ∨ i + size > proc.sz then none else some i

theorem isInt32_toInt (word : BitVec 32) : IsInt32 word.toInt := by
  have low := word.le_toInt
  have high := word.toInt_lt
  exact ⟨by omega, by omega⟩

/-- The first four arguments. -/
def argRect (proc : Proc) : Option Rect := do
  let xl ← argint proc 0
  let yl ← argint proc 1
  let width ← argint proc 2
  let height ← argint proc 3
  some ⟨xl.toInt, yl.toInt, width.toInt, height.toInt, isInt32_toInt xl, isInt32_toInt yl,
    isInt32_toInt width, isInt32_toInt height⟩

/-- The expression `size * width * height`, computed unsigned. -/
def areaSize (size : Int) (rect : Rect) : BitVec 32 :=
  BitVec.ofInt 32 size * BitVec.ofInt 32 rect.width * BitVec.ofInt 32 rect.height

/-- The checked arguments of `sys_drawarea` and, with another element size, of
`sys_drawarea_short`. -/
def areaArgs (size : Int) (proc : Proc) : Option (Rect × BitVec 32) := do
  let rect ← argRect proc
  let colors ← argptr proc 4 (areaSize size rect)
  some (rect, colors)

/-- The checked arguments of `sys_drawarea_color`. -/
def glyphArgs (proc : Proc) : Option (Rect × BitVec 32 × BitVec 32) := do
  let rect ← argRect proc
  let color ← argint proc 4
  let colors ← argptr proc 5 (areaSize 4 rect)
  some (rect, color, colors)

/-- The checked arguments of `sys_drawgbk_color`. -/
def gbkArgs (proc : Proc) : Option (Rect × BitVec 32 × BitVec 32) := do
  let rect ← argRect proc
  let color ← argint proc 4
  let gbk ← argptr proc 5 32
  some (rect, color, gbk)

/-- A process of the given size that calls with the given arguments, which stand at
address 32. -/
def calling (sz : BitVec 32) (arguments : List (BitVec 32)) : Proc where
  sz := sz
  esp := 28
  memory address :=
    ((arguments.getD (address.toNat / 4 - 8) 0) >>> (8 * (address.toNat % 4))).setWidth 8

theorem isInt32_zero : IsInt32 0 := by
  decide

/-- A rectangle at the origin. -/
def atOrigin (width height : Int) (widthInt : IsInt32 width) (heightInt : IsInt32 height) :
    Rect :=
  ⟨0, 0, width, height, isInt32_zero, isInt32_zero, widthInt, heightInt⟩

/-- The bytes of `colors` that the loops of an area read. -/
def areaLoopReads (size : Nat) (rect : Rect) (colors : BitVec 32) : List (BitVec 32) :=
  (pixels rect).flatMap fun position =>
    block (areaElement size rect colors position.1 position.2) size

/-- The bytes of `colors` that `drawarea` reads. -/
def drawareaReads (rect : Rect) (colors : BitVec 32) : List (BitVec 32) :=
  areaLoopReads 4 rect colors

/-- The bytes of `colors` that `drawarea_short` reads. -/
def drawareaShortReads (rect : Rect) (colors : BitVec 32) : List (BitVec 32) :=
  if rect.WholeScreen then block colors (2 * 800 * 600) else areaLoopReads 2 rect colors

/-- The bytes of `colors` that `drawarea_color` reads. -/
def drawareaColorReads (rect : Rect) (colors : BitVec 32) : List (BitVec 32) :=
  (pixels rect).flatMap fun position => block (glyphElement rect colors position.1 position.2) 4

/-- The bytes of `gbk` that `drawgbk_color` reads: its first loops read all. -/
def drawgbkColorReads (gbk : BitVec 32) : List (BitVec 32) :=
  block gbk 32

/-- How often the inner loop runs for each row. -/
def Rect.columns (rect : Rect) : Nat :=
  (toInt32 (rect.xl + rect.width) - rect.xl).toNat

/-- How often the outer loop runs. -/
def Rect.rows (rect : Rect) : Nat :=
  (toInt32 (rect.yl + rect.height) - rect.yl).toNat

/-- The cell of one axis of a glyph for the pixel that many pixels from the edge. -/
def scaledCell (cells size : Int) (offset : Nat) : Int :=
  (toInt32 (offset * cells)).tdiv size

/-- The cell of a glyph that `drawarea_color` reads for a pixel. -/
def Rect.cell (rect : Rect) (column row : Nat) : Int :=
  scaledCell 8 rect.width column + scaledCell 16 rect.height row * 8

/-- The least product of an offset and the number of cells: 0, unless a product
overflows. -/
def leastProduct (cells : Int) (count : Nat) : Int :=
  if cells * (count - 1) < 2 ^ 31 then 0 else -2 ^ 31

/-- The greatest product of an offset and the number of cells. -/
def greatestProduct (cells : Int) (count : Nat) : Int :=
  if cells * (count - 1) < 2 ^ 31 then cells * (count - 1) else 2 ^ 31 - cells

/-- The least cell of an axis that is reached.  The size may be negative. -/
def firstCell (cells size : Int) (count : Nat) : Int :=
  min ((greatestProduct cells count).tdiv size) ((leastProduct cells count).tdiv size)

/-- The greatest cell of an axis that is reached. -/
def lastCell (cells size : Int) (count : Nat) : Int :=
  max ((greatestProduct cells count).tdiv size) ((leastProduct cells count).tdiv size)

/-- The least cell of a glyph that `drawarea_color` reads. -/
def Rect.firstCell (rect : Rect) : Int :=
  Kernel.firstCell 8 rect.width rect.columns + Kernel.firstCell 16 rect.height rect.rows * 8

/-- The greatest cell of a glyph that `drawarea_color` reads. -/
def Rect.lastCell (rect : Rect) : Int :=
  Kernel.lastCell 8 rect.width rect.columns + Kernel.lastCell 16 rect.height rect.rows * 8

/-! ## Areas -/

variable {size low : Int} {column offset cells : Nat} {proc : Proc}

section

variable {rect : Rect}

/-- A loop that runs at all runs as often as the size says, up to wrap-around. -/
theorem count_eq (lowInt : IsInt32 low) (sizeInt : IsInt32 size)
    (runs : 0 < (toInt32 (low + size) - low).toNat) :
    ((toInt32 (low + size) - low).toNat : Int) = size % 2 ^ 32 := by
  obtain ⟨lowLeast, lowGreatest⟩ := lowInt
  obtain ⟨sizeLeast, sizeGreatest⟩ := sizeInt
  rw [toInt32_eq] at runs ⊢
  split at runs <;> split <;> omega

theorem columns_eq (runs : 0 < rect.columns) : (rect.columns : Int) = rect.width % 2 ^ 32 :=
  count_eq rect.xlInt rect.widthInt runs

theorem rows_eq (runs : 0 < rect.rows) : (rect.rows : Int) = rect.height % 2 ^ 32 :=
  count_eq rect.ylInt rect.heightInt runs

theorem ofInt_eq_ofNat {count : Nat} (isCount : (count : Int) = size % 2 ^ 32) :
    BitVec.ofInt 32 size = BitVec.ofNat 32 count := by
  apply BitVec.eq_of_toNat_eq
  rw [BitVec.toNat_ofInt, BitVec.toNat_ofNat]
  omega

theorem mem_pixels_iff_offsets {x y : Int} :
    (x, y) ∈ pixels rect ↔
      ∃ column row : Nat, column < rect.columns ∧ row < rect.rows ∧
        x = rect.xl + column ∧ y = rect.yl + row := by
  rw [mem_pixels]
  constructor
  · rintro ⟨xInside, yInside⟩
    exact ⟨(x - rect.xl).toNat, (y - rect.yl).toNat, by rw [Rect.columns]; omega,
      by rw [Rect.rows]; omega, by omega, by omega⟩
  · rintro ⟨column, row, columnBound, rowBound, rfl, rfl⟩
    rw [Rect.columns] at columnBound
    rw [Rect.rows] at rowBound
    omega

/-- The elements of an area lie row behind row. -/
theorem areaElement_offsets (size : Nat) (colors : BitVec 32) (row : Nat)
    (inside : column < rect.columns) :
    areaElement size rect colors (rect.xl + column) (rect.yl + row) =
      colors + BitVec.ofNat 32 (size * (row * rect.columns + column)) := by
  have width : BitVec.ofInt 32 rect.width = BitVec.ofNat 32 rect.columns :=
    ofInt_eq_ofNat (columns_eq (by omega))
  have columnOffset : rect.xl + column - rect.xl = column := by omega
  have rowOffset : rect.yl + row - rect.yl = row := by omega
  rw [areaElement_eq, element, columnOffset, rowOffset, BitVec.ofInt_add, BitVec.ofInt_mul, width]
  simp only [BitVec.ofInt_natCast, BitVec.ofNat_mul, BitVec.ofNat_add, BitVec.add_comm]

/-- The loops of an area read one block. -/
theorem mem_areaLoopReads {size : Nat} (some : 0 < size) (colors address : BitVec 32) :
    address ∈ areaLoopReads size rect colors ↔
      address ∈ block colors (size * (rect.rows * rect.columns)) := by
  simp only [areaLoopReads, mem_flatMap, mem_block, Prod.exists]
  constructor
  · rintro ⟨x, y, member, offset, inside, rfl⟩
    obtain ⟨column, row, columnBound, rowBound, rfl, rfl⟩ := mem_pixels_iff_offsets.mp member
    refine ⟨size * (row * rect.columns + column) + offset, ?_, ?_⟩
    · calc size * (row * rect.columns + column) + offset
          < size * (row * rect.columns + column) + size := by omega
        _ = size * (row * rect.columns + column + 1) := by rw [Nat.mul_succ]
        _ ≤ size * (rect.rows * rect.columns) := by
            apply Nat.mul_le_mul_left
            calc row * rect.columns + column + 1
                ≤ row * rect.columns + rect.columns := by omega
              _ = (row + 1) * rect.columns := by rw [Nat.succ_mul]
              _ ≤ rect.rows * rect.columns := Nat.mul_le_mul_right _ rowBound
    · rw [areaElement_offsets size colors row columnBound, BitVec.ofNat_add, BitVec.add_assoc]
  · rintro ⟨offset, inside, rfl⟩
    have index : offset / size < rect.rows * rect.columns := by
      rw [Nat.div_lt_iff_lt_mul some, Nat.mul_comm]
      exact inside
    have columnBound : offset / size % rect.columns < rect.columns :=
      Nat.mod_lt _ (Nat.pos_of_mul_pos_left (Nat.zero_lt_of_lt index))
    have rowBound : offset / size / rect.columns < rect.rows := Nat.div_lt_of_lt_mul (by
      rw [Nat.mul_comm]
      exact index)
    refine ⟨rect.xl + (offset / size % rect.columns : Nat),
      rect.yl + (offset / size / rect.columns : Nat),
      mem_pixels_iff_offsets.mpr ⟨_, _, columnBound, rowBound, rfl, rfl⟩,
      offset % size, Nat.mod_lt _ some, ?_⟩
    rw [areaElement_offsets size colors _ columnBound, BitVec.add_assoc, ← BitVec.ofNat_add,
      Nat.mul_comm (offset / size / rect.columns), Nat.div_add_mod, Nat.div_add_mod]

/-- The size that is checked is the true size, up to wrap-around. -/
theorem areaSize_eq (size : Nat) (runs : 0 < rect.rows * rect.columns) :
    areaSize size rect = BitVec.ofNat 32 (size * (rect.rows * rect.columns)) := by
  have width : BitVec.ofInt 32 rect.width = BitVec.ofNat 32 rect.columns :=
    ofInt_eq_ofNat (columns_eq (Nat.pos_of_mul_pos_left runs))
  have height : BitVec.ofInt 32 rect.height = BitVec.ofNat 32 rect.rows :=
    ofInt_eq_ofNat (rows_eq (Nat.pos_of_mul_pos_right runs))
  rw [areaSize, width, height, BitVec.ofInt_natCast, BitVec.ofNat_mul, BitVec.ofNat_mul,
    BitVec.mul_assoc, BitVec.mul_comm (BitVec.ofNat 32 rect.columns)]

end

/-! ## Checked pointers -/

/-- What `argptr` has checked. -/
theorem argptr_checked {n : Nat} {size pointer : BitVec 32}
    (fetched : argptr proc n size = some pointer) :
    pointer < proc.sz ∧ pointer + size ≤ proc.sz := by
  obtain ⟨i, -, checked⟩ := bind_eq_some_iff.mp fetched
  split at checked
  · cases checked
  rename_i inside
  cases checked
  rw [not_or, BitVec.not_le, BitVec.not_lt] at inside
  exact inside

/-- The array of an area lies in the process if and only if it is empty or does
not wrap around at the last address. -/
theorem area_inside_iff {size : Nat} (some : 0 < size) {rect : Rect} {colors : BitVec 32}
    (fetched : areaArgs size proc = Option.some (rect, colors)) :
    (∀ address ∈ areaLoopReads size rect colors, address < proc.sz) ↔
      rect.rows * rect.columns = 0 ∨
        colors.toNat + size * (rect.rows * rect.columns) < 2 ^ 32 := by
  simp only [mem_areaLoopReads some]
  by_cases empty : rect.rows * rect.columns = 0
  · simp [empty]
  obtain ⟨fetchedRect, -, rest⟩ := bind_eq_some_iff.mp fetched
  obtain ⟨pointer, fetchedPointer, same⟩ := bind_eq_some_iff.mp rest
  cases same
  have checked := (argptr_checked fetchedPointer).2
  rw [areaSize_eq size (Nat.pos_of_ne_zero empty)] at checked
  rw [block_below_iff checked, Nat.mul_eq_zero]
  have notZero : size ≠ 0 := by omega
  simp [notZero]

/-- The copy of the whole screen reads the same bytes as the loops. -/
theorem mem_drawareaShortReads (rect : Rect) (colors address : BitVec 32) :
    address ∈ drawareaShortReads rect colors ↔ address ∈ areaLoopReads 2 rect colors := by
  rw [drawareaShortReads]
  split
  · rename_i whole
    obtain ⟨left, top, width, height⟩ := whole
    have columns : rect.columns = 800 := by
      rw [Rect.columns, left, width]
      decide
    have rows : rect.rows = 600 := by
      rw [Rect.rows, top, height]
      decide
    rw [mem_areaLoopReads (by decide), columns, rows]
  · rfl

/-! ## Scaling -/

section

variable {size low cells : Int} {offset count : Nat}

theorem glyphCell_add (low cells size : Int) (offset : Nat) :
    glyphCell (low + offset) low cells size = scaledCell cells size offset := by
  have difference : low + offset - low = offset := by omega
  have product : toInt32 (toInt32 offset * cells) = toInt32 (offset * cells) := by
    simp only [toInt32, BitVec.ofInt_mul, BitVec.ofInt_toInt]
  rw [glyphCell, difference, product, scaledCell]

/-- Division keeps or reverses the order. -/
theorem tdiv_between {least n greatest : Int} (low : least ≤ n) (high : n ≤ greatest)
    (size : Int) :
    min (greatest.tdiv size) (least.tdiv size) ≤ n.tdiv size ∧
      n.tdiv size ≤ max (greatest.tdiv size) (least.tdiv size) := by
  rcases Int.lt_trichotomy size 0 with negative | rfl | positive
  · have lower := Int.tdiv_le_tdiv (show 0 < -size by omega) low
    have upper := Int.tdiv_le_tdiv (show 0 < -size by omega) high
    rw [Int.tdiv_neg, Int.tdiv_neg] at lower upper
    omega
  · simp
  · have lower := Int.tdiv_le_tdiv positive low
    have upper := Int.tdiv_le_tdiv positive high
    omega

/-- A quotient by a negative number moves by at most as much as the dividend. -/
theorem tdiv_add_near {n step size : Int} (nonneg : 0 ≤ n) (grows : 0 ≤ step)
    (negative : size < 0) :
    n.tdiv size - step ≤ (n + step).tdiv size ∧ (n + step).tdiv size ≤ n.tdiv size := by
  obtain ⟨divisor, rfl⟩ : ∃ divisor, size = -divisor := ⟨-size, by omega⟩
  have positive : 0 < divisor := by omega
  have larger : n + step ≤ n + step * divisor := by
    have scaled := Int.mul_le_mul_of_nonneg_left (show 1 ≤ divisor by omega) grows
    omega
  have lower := Int.ediv_le_ediv positive (show n ≤ n + step by omega)
  have upper := Int.ediv_le_ediv positive larger
  rw [Int.add_mul_ediv_right _ _ (by omega)] at upper
  rw [Int.tdiv_neg, Int.tdiv_neg, Int.tdiv_eq_ediv_of_nonneg nonneg,
    Int.tdiv_eq_ediv_of_nonneg (by omega)]
  omega

section

variable (few : cells = 8 ∨ cells = 16)

include few

theorem product_between (inside : offset < count) :
    leastProduct cells count ≤ toInt32 (offset * cells) ∧
      toInt32 (offset * cells) ≤ greatestProduct cells count := by
  rw [toInt32_eq, leastProduct, greatestProduct]
  rcases few with rfl | rfl <;> split <;> split <;> omega

theorem product_reached (runs : 0 < count) :
    (∃ offset < count, toInt32 (offset * cells) = leastProduct cells count) ∧
      ∃ offset < count, toInt32 (offset * cells) = greatestProduct cells count := by
  rw [leastProduct, greatestProduct]
  split
  · refine ⟨⟨0, runs, by simp [toInt32]⟩, count - 1, by omega, ?_⟩
    rcases few with rfl | rfl <;> rw [toInt32_of_isInt32 ⟨by omega, by omega⟩] <;> omega
  · rcases few with rfl | rfl
    · exact ⟨⟨2 ^ 28, by omega, rfl⟩, 2 ^ 28 - 1, by omega, rfl⟩
    · exact ⟨⟨2 ^ 27, by omega, rfl⟩, 2 ^ 27 - 1, by omega, rfl⟩

theorem scaledCell_between (size : Int) (inside : offset < count) :
    firstCell cells size count ≤ scaledCell cells size offset ∧
      scaledCell cells size offset ≤ lastCell cells size count := by
  obtain ⟨low, high⟩ := product_between few inside
  exact tdiv_between low high size

theorem scaledCell_reached (size : Int) (runs : 0 < count) :
    (∃ offset < count, scaledCell cells size offset = firstCell cells size count) ∧
      ∃ offset < count, scaledCell cells size offset = lastCell cells size count := by
  obtain ⟨⟨low, lowInside, isLow⟩, high, highInside, isHigh⟩ := product_reached few runs
  simp only [scaledCell, firstCell, lastCell, Int.min_def, Int.max_def, ← isLow, ← isHigh]
  split
  · exact ⟨⟨high, highInside, rfl⟩, low, lowInside, rfl⟩
  · exact ⟨⟨low, lowInside, rfl⟩, high, highInside, rfl⟩

/-- A property of 0 that passes between near quotients by a negative number holds
for the quotients of all multiples of the number of cells. -/
theorem multiples_induction {reached : Int → Prop} (negative : size < 0) (zero : reached 0)
    (next : ∀ n cell : Int, cells ∣ n → IsInt32 n → reached cell →
      cell - cells ≤ n.tdiv size → n.tdiv size ≤ cell + cells → reached (n.tdiv size))
    {n : Int} (multiple : cells ∣ n) (isInt : IsInt32 n) : reached (n.tdiv size) := by
  -- The multiple next to `n` on the side of 0 has a near quotient.
  induction distance : n.natAbs using Nat.strong_induction_on generalizing n with
  | _ m ih =>
    obtain ⟨low, high⟩ := isInt
    rcases Int.lt_trichotomy n 0 with below | rfl | above
    · have smaller := ih (n + cells).natAbs (by rcases few with rfl | rfl <;> omega)
        (Int.dvd_add multiple (Int.dvd_refl cells)) ⟨by omega, by omega⟩ rfl
      obtain ⟨near, near'⟩ := tdiv_add_near
        (show 0 ≤ -(n + cells) by rcases few with rfl | rfl <;> omega)
        (show 0 ≤ cells by omega) negative
      rw [Int.neg_add, Int.neg_add_cancel_right, ← Int.neg_add, Int.neg_tdiv, Int.neg_tdiv]
        at near near'
      exact next n _ multiple ⟨low, high⟩ smaller (by omega) (by omega)
    · rw [Int.zero_tdiv]
      exact zero
    · have smaller := ih (n - cells).natAbs (by rcases few with rfl | rfl <;> omega)
        (Int.dvd_sub multiple (Int.dvd_refl cells)) ⟨by omega, by omega⟩ rfl
      obtain ⟨near, near'⟩ := tdiv_add_near
        (show 0 ≤ n - cells by rcases few with rfl | rfl <;> omega)
        (show 0 ≤ cells by omega) negative
      rw [Int.sub_add_cancel] at near near'
      exact next n _ multiple ⟨low, high⟩ smaller (by omega) (by omega)

variable (isCount : (count : Int) = size % 2 ^ 32)

include isCount

/-- For a positive size no cell is farther from the first than there are cells. -/
theorem scaledCell_near (positive : 0 < size) (inside : offset < count) :
    -cells ≤ scaledCell cells size offset ∧ scaledCell cells size offset ≤ cells := by
  have product : -(cells * size) ≤ toInt32 (offset * cells) ∧
      toInt32 (offset * cells) ≤ cells * size := by
    rw [toInt32_eq]
    rcases few with rfl | rfl <;> split <;> omega
  have lower := Int.tdiv_le_tdiv positive product.1
  have upper := Int.tdiv_le_tdiv positive product.2
  rw [Int.neg_tdiv, Int.mul_tdiv_cancel _ (by omega)] at lower
  rw [Int.mul_tdiv_cancel _ (by omega)] at upper
  exact ⟨lower, upper⟩

/-- For a negative size every multiple of the number of cells is divided. -/
theorem exists_product_eq (negative : size < 0) (sizeInt : IsInt32 size) {n : Int}
    (multiple : cells ∣ n) (isInt : IsInt32 n) :
    ∃ offset < count, toInt32 (offset * cells) = n := by
  obtain ⟨low, high⟩ := isInt
  obtain ⟨sizeLow, -⟩ := sizeInt
  refine ⟨(n / cells % (2 ^ 32 / cells)).toNat, ?_, ?_⟩
  · rcases few with rfl | rfl <;> omega
  · rw [toInt32_eq]
    rcases few with rfl | rfl <;> split <;> omega

/-- From the first cell one gets to every cell that is reached by steps of at most
the number of cells. -/
theorem scaledCell_induction (reached : Int → Prop) (sizeInt : IsInt32 size) (zero : reached 0)
    (step : ∀ offset < count, ∀ cell, reached cell →
      cell - cells ≤ scaledCell cells size offset → scaledCell cells size offset ≤ cell + cells →
      reached (scaledCell cells size offset))
    (inside : offset < count) : reached (scaledCell cells size offset) := by
  rcases Int.lt_trichotomy size 0 with negative | rfl | positive
  · have multiple : cells ∣ toInt32 (offset * cells) := by
      rw [toInt32_eq]
      rcases few with rfl | rfl <;> split <;> omega
    refine multiples_induction few negative zero ?_ multiple (isInt32_toInt _)
    intro n cell multiple isInt isReached near near'
    obtain ⟨offset, inside, isProduct⟩ :=
      exists_product_eq few isCount negative sizeInt multiple isInt
    have stepped := step offset inside cell isReached
    rw [scaledCell, isProduct] at stepped
    exact stepped near near'
  · omega
  · obtain ⟨low, high⟩ := scaledCell_near few isCount positive inside
    exact step offset inside 0 zero (by omega) (by omega)

end

end

/-! ## Glyphs -/

section

variable {rect : Rect} {colors : BitVec 32}

theorem scaledCell_zero (cells size : Int) : scaledCell cells size 0 = 0 := by
  simp [scaledCell, toInt32]

theorem glyphElement_offsets (column row : Nat) :
    glyphElement rect colors (rect.xl + column) (rect.yl + row) =
      colors + BitVec.ofInt 32 (4 * rect.cell column row) := by
  rw [glyphElement, glyphCell_add, glyphCell_add, element_toInt32, element, ← BitVec.ofInt_mul,
    Rect.cell]
  simp only [BitVec.ofInt_mul, BitVec.ofInt_add, toInt32, BitVec.ofInt_toInt]

/-- The reads of a glyph lie in the process if and only if every cell that is
reached does, its address computed with wrap-around. -/
theorem glyph_inside_iff_cells {sz : BitVec 32} :
    (∀ address ∈ drawareaColorReads rect colors, address < sz) ↔
      ∀ column < rect.columns, ∀ row < rect.rows,
        (colors.toNat + 4 * rect.cell column row) % 2 ^ 32 + 4 ≤ sz.toNat := by
  have cell_inside_iff : ∀ column row : Nat,
      (∀ address ∈ block (glyphElement rect colors (rect.xl + column) (rect.yl + row)) 4,
        address < sz) ↔
      (colors.toNat + 4 * rect.cell column row) % 2 ^ 32 + 4 ≤ sz.toNat := by
    intro column row
    have address : ((colors + BitVec.ofInt 32 (4 * rect.cell column row)).toNat : Int) =
        (colors.toNat + 4 * rect.cell column row) % 2 ^ 32 := by
      rw [BitVec.toNat_add, BitVec.toNat_ofInt]
      omega
    rw [block_inside_iff, glyphElement_offsets, ← address]
    omega
  simp only [← cell_inside_iff, drawareaColorReads, mem_flatMap, Prod.exists]
  constructor
  · intro inside column columnBound row rowBound address member
    exact inside address ⟨_, _,
      mem_pixels_iff_offsets.mpr ⟨column, row, columnBound, rowBound, rfl, rfl⟩, member⟩
  · rintro inside address ⟨x, y, member, isRead⟩
    obtain ⟨column, row, columnBound, rowBound, rfl, rfl⟩ := mem_pixels_iff_offsets.mp member
    exact inside column columnBound row rowBound address isRead

/-- The cell lies in the process, its address computed without wrap-around. -/
def CellInside (sz colors : BitVec 32) (cell : Int) : Prop :=
  0 ≤ colors.toNat + 4 * cell ∧ colors.toNat + 4 * (cell + 1) ≤ (sz.toNat : Int)

/-- A step of at most 512 bytes from a cell in the process does not lead around
it. -/
theorem CellInside.near {sz : BitVec 32} {cell next : Int} (small : sz.toNat ≤ 2 ^ 32 - 512)
    (inside : CellInside sz colors cell) (near : cell - 128 ≤ next) (near' : next ≤ cell + 128)
    (wrapped : (colors.toNat + 4 * next) % 2 ^ 32 + 4 ≤ (sz.toNat : Int)) :
    CellInside sz colors next := by
  simp only [CellInside] at inside ⊢
  omega

section

variable (columnsRun : 0 < rect.columns) (rowsRun : 0 < rect.rows)

include columnsRun rowsRun

/-- Unless the process is very large, the cells that are reached lie in it without
wrap-around: one gets to each of them along the two axes. -/
theorem cells_unwrapped {sz : BitVec 32} (small : sz.toNat ≤ 2 ^ 32 - 512)
    (inside : ∀ column < rect.columns, ∀ row < rect.rows,
      (colors.toNat + 4 * rect.cell column row) % 2 ^ 32 + 4 ≤ (sz.toNat : Int))
    {column row : Nat} (columnBound : column < rect.columns) (rowBound : row < rect.rows) :
    CellInside sz colors (rect.cell column row) := by
  have firstColumn : CellInside sz colors (scaledCell 16 rect.height row * 8) := by
    refine scaledCell_induction (.inr rfl) (rows_eq rowsRun)
      (fun cell => CellInside sz colors (cell * 8)) rect.heightInt ?_ ?_ rowBound
    · have corner := inside 0 columnsRun 0 rowsRun
      rw [Rect.cell, scaledCell_zero, scaledCell_zero] at corner
      exact ⟨by omega, by omega⟩
    · intro row rowBound cell reached near near'
      have wrapped := inside 0 columnsRun row rowBound
      rw [Rect.cell, scaledCell_zero, Int.zero_add] at wrapped
      exact CellInside.near small reached (by omega) (by omega) wrapped
  refine scaledCell_induction (.inl rfl) (columns_eq columnsRun)
    (fun cell => CellInside sz colors (cell + scaledCell 16 rect.height row * 8)) rect.widthInt ?_
    ?_ columnBound
  · rw [Int.zero_add]
    exact firstColumn
  · intro column columnBound cell reached near near'
    exact CellInside.near small reached (by omega) (by omega)
      (inside column columnBound row rowBound)

omit columnsRun rowsRun in
theorem cell_between {column row : Nat} (columnBound : column < rect.columns)
    (rowBound : row < rect.rows) :
    rect.firstCell ≤ rect.cell column row ∧ rect.cell column row ≤ rect.lastCell := by
  have columnBetween := scaledCell_between (.inl rfl) rect.width columnBound
  have rowBetween := scaledCell_between (.inr rfl) rect.height rowBound
  rw [Rect.firstCell, Rect.cell, Rect.lastCell]
  omega

theorem cell_reached :
    (∃ column < rect.columns, ∃ row < rect.rows, rect.cell column row = rect.firstCell) ∧
      ∃ column < rect.columns, ∃ row < rect.rows, rect.cell column row = rect.lastCell := by
  obtain ⟨⟨column, columnBound, isColumn⟩, column', columnBound', isColumn'⟩ :=
    scaledCell_reached (.inl rfl) rect.width columnsRun
  obtain ⟨⟨row, rowBound, isRow⟩, row', rowBound', isRow'⟩ :=
    scaledCell_reached (.inr rfl) rect.height rowsRun
  exact ⟨⟨column, columnBound, row, rowBound, by rw [Rect.cell, isColumn, isRow, Rect.firstCell]⟩,
    column', columnBound', row', rowBound', by rw [Rect.cell, isColumn', isRow', Rect.lastCell]⟩

end

/-- The glyph lies in the process if and only if its first and its last cell do,
unless the process is so large that a step between cells leads around it. -/
theorem glyph_inside_iff {sz : BitVec 32} (small : sz.toNat ≤ 2 ^ 32 - 512) :
    (∀ address ∈ drawareaColorReads rect colors, address < sz) ↔
      rect.rows * rect.columns = 0 ∨
        0 ≤ colors.toNat + 4 * rect.firstCell ∧
          colors.toNat + 4 * (rect.lastCell + 1) ≤ sz.toNat := by
  rw [glyph_inside_iff_cells]
  by_cases empty : rect.rows * rect.columns = 0
  · refine iff_of_true ?_ (.inl empty)
    intro column columnBound row rowBound
    exact absurd empty (Nat.mul_ne_zero (by omega) (by omega))
  have columnsRun : 0 < rect.columns := Nat.pos_of_mul_pos_left (Nat.pos_of_ne_zero empty)
  have rowsRun : 0 < rect.rows := Nat.pos_of_mul_pos_right (Nat.pos_of_ne_zero empty)
  rw [or_iff_right empty]
  constructor
  · intro inside
    obtain ⟨⟨column, columnBound, row, rowBound, isFirst⟩,
      column', columnBound', row', rowBound', isLast⟩ := cell_reached columnsRun rowsRun
    have first := cells_unwrapped columnsRun rowsRun small inside columnBound rowBound
    have last := cells_unwrapped columnsRun rowsRun small inside columnBound' rowBound'
    rw [isFirst] at first
    rw [isLast] at last
    exact ⟨first.1, last.2⟩
  · rintro ⟨first, last⟩ column columnBound row rowBound
    obtain ⟨low, high⟩ := cell_between columnBound rowBound
    rw [Int.emod_eq_of_lt (by omega) (by omega)]
    omega

end

/-- When a drawing call has passed its checks, the bytes of its array that it
reads lie in the process if and only if: the array of an area is empty or does
not wrap around at the last address; every cell of a glyph of 8 times 16 cells
that the scaling reaches does, that is, its first and its last cell do, unless the
process leaves less than 512 bytes of the address space free; the 32 bytes of a
glyph of bits do not wrap around. -/
theorem reads_validated_iff (proc : Proc) :
    (∀ rect colors, areaArgs 4 proc = some (rect, colors) →
      ((∀ address ∈ drawareaReads rect colors, address < proc.sz) ↔
        rect.rows * rect.columns = 0 ∨
          colors.toNat + 4 * (rect.rows * rect.columns) < 2 ^ 32)) ∧
    (∀ rect colors, areaArgs 2 proc = some (rect, colors) →
      ((∀ address ∈ drawareaShortReads rect colors, address < proc.sz) ↔
        rect.rows * rect.columns = 0 ∨
          colors.toNat + 2 * (rect.rows * rect.columns) < 2 ^ 32)) ∧
    (∀ rect color colors, glyphArgs proc = some (rect, color, colors) →
      ((∀ address ∈ drawareaColorReads rect colors, address < proc.sz) ↔
        ∀ column < rect.columns, ∀ row < rect.rows,
          (colors.toNat + 4 * rect.cell column row) % 2 ^ 32 + 4 ≤ proc.sz.toNat) ∧
      (proc.sz.toNat ≤ 2 ^ 32 - 512 →
        ((∀ address ∈ drawareaColorReads rect colors, address < proc.sz) ↔
          rect.rows * rect.columns = 0 ∨
            0 ≤ colors.toNat + 4 * rect.firstCell ∧
              colors.toNat + 4 * (rect.lastCell + 1) ≤ proc.sz.toNat))) ∧
    ∀ rect color gbk, gbkArgs proc = some (rect, color, gbk) →
      ((∀ address ∈ drawgbkColorReads gbk, address < proc.sz) ↔ gbk.toNat + 32 < 2 ^ 32) := by
  refine ⟨?_, ?_, ?_, ?_⟩
  · intro rect colors fetched
    exact area_inside_iff (by decide) fetched
  · intro rect colors fetched
    simp only [mem_drawareaShortReads]
    exact area_inside_iff (by decide) fetched
  · intro rect color colors _
    exact ⟨glyph_inside_iff_cells, glyph_inside_iff⟩
  intro rect color gbk fetched
  obtain ⟨fetchedRect, -, rest⟩ := bind_eq_some_iff.mp fetched
  obtain ⟨fetchedColor, -, rest⟩ := bind_eq_some_iff.mp rest
  obtain ⟨pointer, fetchedPointer, same⟩ := bind_eq_some_iff.mp rest
  cases same
  rw [drawgbkColorReads, block_below_iff (argptr_checked fetchedPointer).2]
  simp

/-- An area of two pixels at the end of a process; and a glyph so wide that the
scaling overflows and reaches four cells in front of it. -/
theorem drawarea_two_pixels_validated :
    (∀ address ∈ drawareaReads (atOrigin 2 1 (by decide) (by decide)) 56,
      address < (calling 64 [0, 0, 2, 1, 56]).sz) ∧
    ∀ address ∈ drawareaColorReads (atOrigin 536870912 2 (by decide) (by decide)) 1000,
      address < (calling 4096 [0, 0, 536870912, 2, 0, 1000]).sz := by
  obtain ⟨area, -⟩ := reads_validated_iff (calling 64 [0, 0, 2, 1, 56])
  obtain ⟨-, -, glyph, -⟩ := reads_validated_iff (calling 4096 [0, 0, 536870912, 2, 0, 1000])
  exact ⟨(area _ _ (by rfl)).mpr (.inr (by decide)),
    ((glyph _ _ _ (by rfl)).2 (by decide)).mpr (.inr (by decide))⟩

/-- A glyph drawn two pixels wide and one pixel high: eight bytes are checked, a
byte behind the end of the process is read.  An area of 65536 times 16384 pixels:
no byte is checked, the last byte of the address space is read. -/
theorem unchecked_bytes_read :
    (glyphArgs (calling 64 [0, 0, 2, 1, 0, 56]) =
        some (atOrigin 2 1 (by decide) (by decide), 0, 56) ∧
      72 ∈ drawareaColorReads (atOrigin 2 1 (by decide) (by decide)) 56 ∧
      ¬ (72 : BitVec 32) < (calling 64 [0, 0, 2, 1, 0, 56]).sz) ∧
    areaArgs 4 (calling 64 [0, 0, 65536, 16384, 0]) =
        some (atOrigin 65536 16384 (by decide) (by decide), 0) ∧
      0xffffffff ∈ drawareaReads (atOrigin 65536 16384 (by decide) (by decide)) 0 ∧
      ¬ (0xffffffff : BitVec 32) < (calling 64 [0, 0, 65536, 16384, 0]).sz := by
  refine ⟨⟨by rfl, by decide, by decide⟩, by rfl, ?_, by decide⟩
  rw [drawareaReads, mem_areaLoopReads (by decide), mem_block]
  exact ⟨0xffffffff, by decide, by decide⟩

end XEditor.Kernel
