import Mathlib.Algebra.Ring.Int.Defs
import XEditor.Lib.Grid

/-!
# Drawing into the screen buffer

Source `sysdraw.c`: the drawing routines store 16-bit colours in `VESA_TEMP`,
an array of 800 times 600 cells, and `update` copies it to the screen.
Arithmetic on `int` wraps at 32 bits.

A routine is modelled by the list of its stores, each an index of `VESA_TEMP`
and a colour, in order.  The arrays a routine reads lie in memory at 32-bit
addresses.
-/

namespace XEditor.Kernel

open List hiding span
open Option Grid

/-- The value of an `int` expression. -/
def toInt32 (n : Int) : Int :=
  (BitVec.ofInt 32 n).toInt

/-- `n` is the value of an `int`. -/
def IsInt32 (n : Int) : Prop :=
  -2 ^ 31 ≤ n ∧ n < 2 ^ 31

instance (n : Int) : Decidable (IsInt32 n) :=
  inferInstanceAs (Decidable (_ ∧ _))

/-- The first four arguments of a drawing routine. -/
structure Rect where
  xl : Int
  yl : Int
  width : Int
  height : Int
  xlInt : IsInt32 xl
  ylInt : IsInt32 yl
  widthInt : IsInt32 width
  heightInt : IsInt32 height

/-- A memory of bytes. -/
abbrev Memory : Type :=
  BitVec 32 → BitVec 8

/-- The address of an element of an array. -/
def element (size : Int) (base : BitVec 32) (index : Int) : BitVec 32 :=
  base + BitVec.ofInt 32 size * BitVec.ofInt 32 index

/-- The word at an address, its lowest byte first. -/
def wordAt (memory : Memory) (address : BitVec 32) : BitVec 32 :=
  memory (address + 3) ++ memory (address + 2) ++ memory (address + 1) ++ memory address

/-- The `int` at an address. -/
def intAt (memory : Memory) (address : BitVec 32) : Int :=
  (wordAt memory address).toInt

/-- Source `set_color`: the store it makes, if any. -/
def setColor (x y color : Int) : Option (Int × Int) :=
  if x ≥ 800 ∨ y ≥ 600 ∨ color ≥ 65536 ∨ color < 0 then none
  else some (toInt32 (x + toInt32 (y * 800)), color)

/-- The values of `x` and `y` in the two loops of a drawing routine. -/
def pixels (rect : Rect) : List (Int × Int) :=
  cells rect.xl (toInt32 (rect.xl + rect.width)) rect.yl (toInt32 (rect.yl + rect.height))

/-- The two loops, with what they store at each pixel. -/
def scan (rect : Rect) (pixel : Int → Int → Option (Int × Int)) : List (Int × Int) :=
  (pixels rect).filterMap fun position => pixel position.1 position.2

/-- The arguments cover the whole screen. -/
def Rect.WholeScreen (rect : Rect) : Prop :=
  rect.xl = 0 ∧ rect.yl = 0 ∧ rect.width = 800 ∧ rect.height = 600

instance (rect : Rect) : Decidable rect.WholeScreen :=
  inferInstanceAs (Decidable (_ ∧ _))

/-- The element of `colors` for a pixel of an area. -/
def areaElement (size : Int) (rect : Rect) (colors : BitVec 32) (x y : Int) : BitVec 32 :=
  element size colors
    (toInt32 (toInt32 (x - rect.xl) + toInt32 (toInt32 (y - rect.yl) * rect.width)))

/-- Source `drawarea`. -/
def drawarea (memory : Memory) (rect : Rect) (colors : BitVec 32) : List (Int × Int) :=
  scan rect fun x y =>
    setColor x y (intAt memory (areaElement 4 rect colors x y))

/-- The expression `(v - low) * cells / size` that scales a pixel to a cell of a
glyph. -/
def glyphCell (v low cells size : Int) : Int :=
  (toInt32 (toInt32 (v - low) * cells)).tdiv size

/-- The element of `colors` for a pixel of a glyph of 8 times 16 cells. -/
def glyphElement (rect : Rect) (colors : BitVec 32) (x y : Int) : BitVec 32 :=
  element 4 colors
    (toInt32 (glyphCell x rect.xl 8 rect.width + toInt32 (glyphCell y rect.yl 16 rect.height * 8)))

/-- Source `drawarea_color`. -/
def drawareaColor (memory : Memory) (rect : Rect) (color : Int) (colors : BitVec 32) :
    List (Int × Int) :=
  scan rect fun x y =>
    if intAt memory (glyphElement rect colors x y) = -1 then none else setColor x y color

/-- A bit of a glyph of 16 times 16 bits, two bytes for each row. -/
def gbkBit (memory : Memory) (gbk : BitVec 32) (column row : Int) : Bool :=
  memory (element 1 gbk (row * 2 + column / 8)) &&& (0x80 >>> (column % 8).toNat) != 0

/-- `colors[column][row]` of `drawgbk_color`.  The first loops fill the table from
the glyph; an access outside it reads other cells of the stack. -/
def gbkColor (memory : Memory) (stack : Int → Int → Int) (color : Int) (gbk : BitVec 32)
    (column row : Int) : Int :=
  if (0 ≤ column ∧ column < 16) ∧ 0 ≤ row ∧ row < 16 then
    if gbkBit memory gbk column row then color else -1
  else stack column row

/-- Source `drawgbk_color`. -/
def drawgbkColor (memory : Memory) (stack : Int → Int → Int) (rect : Rect) (color : Int)
    (gbk : BitVec 32) : List (Int × Int) :=
  scan rect fun x y =>
    let c := gbkColor memory stack color gbk (glyphCell x rect.xl 16 rect.width)
      (glyphCell y rect.yl 16 rect.height)
    if c = -1 then none else setColor x y c

/-- A pixel lies in the requested rectangle. -/
def Rect.Covers (rect : Rect) (x y : Int) : Prop :=
  (rect.xl ≤ x ∧ x < rect.xl + rect.width) ∧ rect.yl ≤ y ∧ y < rect.yl + rect.height

instance (rect : Rect) (x y : Int) : Decidable (rect.Covers x y) :=
  inferInstanceAs (Decidable (_ ∧ _))

/-- A colour that can be stored. -/
def validColor (color : Int) : Option Int :=
  if 0 ≤ color ∧ color < 65536 then some color else none

/-- The colour an area specifies for a pixel. -/
def areaColor (memory : Memory) (rect : Rect) (colors : BitVec 32) (x y : Int) : Option Int :=
  validColor (intAt memory (element 4 colors ((x - rect.xl) + (y - rect.yl) * rect.width)))

/-- The colour a scaled glyph of 8 times 16 cells specifies for a pixel. -/
def glyphColor (memory : Memory) (rect : Rect) (color : Int) (colors : BitVec 32) (x y : Int) :
    Option Int :=
  let column := (x - rect.xl) * 8 / rect.width
  let row := (y - rect.yl) * 16 / rect.height
  if intAt memory (element 4 colors (column + row * 8)) = -1 then none else validColor color

/-- The colour a scaled glyph of 16 times 16 bits specifies for a pixel. -/
def gbkPixel (memory : Memory) (rect : Rect) (color : Int) (gbk : BitVec 32) (x y : Int) :
    Option Int :=
  let column := (x - rect.xl) * 16 / rect.width
  let row := (y - rect.yl) * 16 / rect.height
  if gbkBit memory gbk column row then validColor color else none

/-- The stores change only cells of the screen buffer, and only those of pixels
in the rectangle with a specified colour, which they get. -/
structure Exact (rect : Rect) (picture : Int → Int → Option Int) (stores : List (Int × Int)) :
    Prop where
  inside : ∀ store ∈ stores, 0 ≤ store.1 ∧ store.1 < 800 * 600
  shown : ∀ (buffer : Int → Int) (x y : Int), 0 ≤ x ∧ x < 800 → 0 ≤ y ∧ y < 600 →
    write buffer stores (x + y * 800) =
      if rect.Covers x y then (picture x y).getD (buffer (x + y * 800))
      else buffer (x + y * 800)

/-- The loops reach a pixel that passes the test of `set_color`. -/
def Rect.Stores (rect : Rect) : Prop :=
  (rect.xl < toInt32 (rect.xl + rect.width) ∧ rect.xl < 800) ∧
    rect.yl < toInt32 (rect.yl + rect.height) ∧ rect.yl < 600

/-- The requested rectangle has a pixel on the screen. -/
def Rect.MeetsScreen (rect : Rect) : Prop :=
  ∃ x y, rect.Covers x y ∧ (0 ≤ x ∧ x < 800) ∧ 0 ≤ y ∧ y < 600

/-- If the loops reach a pixel that `set_color` accepts, the rectangle starts on
the screen; otherwise it has no pixel on the screen. -/
def Rect.Clear (rect : Rect) : Prop :=
  (rect.Stores → 0 ≤ rect.xl ∧ 0 ≤ rect.yl) ∧ (¬ rect.Stores → ¬ rect.MeetsScreen)

/-- The pixel `(x, y)` is stored in the cell of the pixel `(column, row)`. -/
def FallsOn (x y column row : Int) : Prop :=
  (x + y * 800) % 2 ^ 32 = column + row * 800

/-- The loops reach the pixel, and it gets a colour. -/
def Rect.Paints (rect : Rect) (paint : Int → Int → Option Int) (x y color : Int) : Prop :=
  (x, y) ∈ pixels rect ∧ (x < 800 ∧ y < 600) ∧ paint x y = some color

/-- The pixel is on the screen and in the rectangle, and its colour is
specified. -/
def Rect.Specifies (rect : Rect) (picture : Int → Int → Option Int) (x y color : Int) : Prop :=
  ((0 ≤ x ∧ x < 800) ∧ 0 ≤ y ∧ y < 600) ∧ rect.Covers x y ∧ picture x y = some color

/-- Every painted pixel, also left of the screen and above it, falls on a pixel
whose colour is specified; the last one that falls on such a pixel has its
colour. -/
structure Rect.Lands (rect : Rect) (paint picture : Int → Int → Option Int) : Prop where
  falls : ∀ x y color, rect.Paints paint x y color →
    ∃ column row specified, rect.Specifies picture column row specified ∧ FallsOn x y column row
  last : ∀ column row color, rect.Specifies picture column row color →
    ∃ x y, rect.Paints paint x y color ∧ FallsOn x y column row ∧
      ∀ x' y' other, rect.Paints paint x' y' other → FallsOn x' y' column row →
        ¬ Before (x, y) (x', y')

/-! ## Arithmetic on `int` -/

theorem toInt32_eq (n : Int) :
    toInt32 n = if n % 2 ^ 32 < 2 ^ 31 then n % 2 ^ 32 else n % 2 ^ 32 - 2 ^ 32 := by
  rw [toInt32, BitVec.toInt_ofInt]
  rfl

theorem toInt32_of_isInt32 {n : Int} (isInt : IsInt32 n) : toInt32 n = n := by
  obtain ⟨low, high⟩ := isInt
  rw [toInt32_eq]
  split <;> omega

/-- Wrapping an index does not change the address of the element. -/
theorem element_toInt32 (size : Int) (base : BitVec 32) (index : Int) :
    element size base (toInt32 index) = element size base index := by
  rw [element, toInt32, BitVec.ofInt_toInt, element]

variable {size low cells v : Int}

/-- A loop that starts at a number that is not negative and runs at all ends where
the rectangle does. -/
theorem toInt32_add_of_lt (sizeInt : IsInt32 size) (positive : 0 ≤ low)
    (runs : low < toInt32 (low + size)) : toInt32 (low + size) = low + size := by
  obtain ⟨sizeLow, sizeHigh⟩ := sizeInt
  rw [toInt32_eq] at runs ⊢
  split at runs <;> split <;> omega

/-! ## Drawing with a clear rectangle -/

variable {x y : Int}

section

variable {rect : Rect} {paint picture : Int → Int → Option Int}

theorem mem_pixels :
    (x, y) ∈ pixels rect ↔
      (rect.xl ≤ x ∧ x < toInt32 (rect.xl + rect.width)) ∧
        rect.yl ≤ y ∧ y < toInt32 (rect.yl + rect.height) :=
  mem_cells

theorem stores_of_mem (member : (x, y) ∈ pixels rect) (xOn : x < 800) (yOn : y < 600) :
    rect.Stores := by
  rw [mem_pixels] at member
  exact ⟨⟨by omega, by omega⟩, by omega, by omega⟩

/-- A clear rectangle that meets the screen starts on it. -/
theorem Rect.Clear.startsOn (clear : rect.Clear) (meets : rect.MeetsScreen) :
    rect.Stores ∧ 0 ≤ rect.xl ∧ 0 ≤ rect.yl := by
  have stores : rect.Stores := by
    by_contra none
    exact clear.2 none meets
  exact ⟨stores, clear.1 stores⟩

/-- With a clear rectangle the loops reach on the screen the pixels the rectangle
covers. -/
theorem mem_pixels_iff_covers (clear : rect.Clear) (xOn : x < 800) (yOn : y < 600) :
    (x, y) ∈ pixels rect ↔ rect.Covers x y ∧ 0 ≤ x ∧ 0 ≤ y := by
  have mem_iff : rect.Stores → ((x, y) ∈ pixels rect ↔ rect.Covers x y ∧ 0 ≤ x ∧ 0 ≤ y) := by
    intro stores
    obtain ⟨xlPositive, ylPositive⟩ := clear.1 stores
    rw [mem_pixels, toInt32_add_of_lt rect.widthInt xlPositive stores.1.1,
      toInt32_add_of_lt rect.heightInt ylPositive stores.2.1, Rect.Covers]
    omega
  constructor
  · intro member
    exact (mem_iff (stores_of_mem member xOn yOn)).mp member
  · rintro ⟨covers, xPositive, yPositive⟩
    obtain ⟨stores, -⟩ := clear.startsOn ⟨x, y, covers, ⟨xPositive, xOn⟩, yPositive, yOn⟩
    exact (mem_iff stores).mpr ⟨covers, xPositive, yPositive⟩

/-- With a clear rectangle every pixel falls on itself. -/
theorem Rect.Clear.lands (clear : rect.Clear)
    (agree : 0 ≤ rect.xl ∧ 0 ≤ rect.yl → ∀ x y, rect.Covers x y → x < 800 → y < 600 →
      paint x y = picture x y) : rect.Lands paint picture := by
  constructor
  · rintro x y color ⟨member, ⟨xOn, yOn⟩, painted⟩
    obtain ⟨covers, xPositive, yPositive⟩ := (mem_pixels_iff_covers clear xOn yOn).mp member
    rw [agree (clear.1 (stores_of_mem member xOn yOn)) x y covers xOn yOn] at painted
    exact ⟨x, y, color, ⟨⟨⟨xPositive, xOn⟩, yPositive, yOn⟩, covers, painted⟩,
      Int.emod_eq_of_lt (by omega) (by omega)⟩
  · rintro column row color ⟨⟨columnOn, rowOn⟩, covers, specified⟩
    have startsOn := clear.startsOn ⟨column, row, covers, columnOn, rowOn⟩
    have member := (mem_pixels_iff_covers clear columnOn.2 rowOn.2).mpr
      ⟨covers, columnOn.1, rowOn.1⟩
    rw [← agree startsOn.2 column row covers columnOn.2 rowOn.2] at specified
    refine ⟨column, row, ⟨member, ⟨columnOn.2, rowOn.2⟩, specified⟩,
      Int.emod_eq_of_lt (by omega) (by omega), ?_⟩
    rintro x y other ⟨visited, ⟨xOn, yOn⟩, -⟩ falls before
    obtain ⟨-, xPositive, yPositive⟩ := (mem_pixels_iff_covers clear xOn yOn).mp visited
    rw [FallsOn, Int.emod_eq_of_lt (by omega) (by omega)] at falls
    rw [Before] at before
    omega

end

/-! ## The routines -/

section

variable {rect : Rect}

/-- A rectangle that covers the whole screen is clear. -/
theorem Rect.WholeScreen.clear (whole : rect.WholeScreen) : rect.Clear := by
  obtain ⟨left, top, width, height⟩ := whole
  have stores : rect.Stores := by
    rw [Rect.Stores, left, top, width, height]
    decide
  exact ⟨fun _ => ⟨Int.le_of_eq left.symm, Int.le_of_eq top.symm⟩, fun none => absurd stores none⟩

/-- The wrapped index of an area has the address of the exact one. -/
theorem areaElement_eq (size : Int) (rect : Rect) (colors : BitVec 32) (x y : Int) :
    areaElement size rect colors x y =
      element size colors ((x - rect.xl) + (y - rect.yl) * rect.width) := by
  rw [areaElement, element, element]
  simp only [toInt32, BitVec.ofInt_add, BitVec.ofInt_mul, BitVec.ofInt_toInt]

/-- Scaling a pixel on the screen to a cell does not overflow. -/
theorem glyphCell_eq (startsOn : 0 ≤ low) (inside : low ≤ v ∧ v < low + size) (on : v < 800)
    (few : 0 ≤ cells ∧ cells ≤ 16) : glyphCell v low cells size = (v - low) * cells / size := by
  have offset : IsInt32 (v - low) := ⟨by omega, by omega⟩
  have positive : 0 ≤ (v - low) * cells := Int.mul_nonneg (by omega) few.1
  have bound : (v - low) * cells ≤ 800 * 16 := by
    apply Int.mul_le_mul <;> omega
  have scaled : IsInt32 ((v - low) * cells) := ⟨by omega, by omega⟩
  rw [glyphCell, toInt32_of_isInt32 offset, toInt32_of_isInt32 scaled,
    Int.tdiv_eq_ediv_of_nonneg positive]

/-- A pixel of the rectangle is scaled to one of the cells. -/
theorem scaled_lt (inside : low ≤ v ∧ v < low + size) (some : 0 < cells) :
    0 ≤ (v - low) * cells / size ∧ (v - low) * cells / size < cells := by
  constructor
  · exact Int.ediv_nonneg (Int.mul_nonneg (by omega) (by omega)) (by omega)
  · apply Int.ediv_lt_of_lt_mul (by omega)
    rw [Int.mul_comm]
    exact Int.mul_lt_mul_of_pos_left (by omega) some

theorem glyphElement_eq (startsOn : 0 ≤ rect.xl ∧ 0 ≤ rect.yl) (covers : rect.Covers x y)
    (xOn : x < 800) (yOn : y < 600) (colors : BitVec 32) :
    glyphElement rect colors x y =
      element 4 colors ((x - rect.xl) * 8 / rect.width + (y - rect.yl) * 16 / rect.height * 8) := by
  rw [glyphElement, glyphCell_eq startsOn.1 covers.1 xOn (by decide),
    glyphCell_eq startsOn.2 covers.2 (by omega) (by decide), element_toInt32, element, element]
  simp only [toInt32, BitVec.ofInt_add, BitVec.ofInt_toInt]

end

/-! ## When the loops are exact -/

/-- What `set_color` stores for a pixel that gets a colour. -/
def storePixel (paint : Int → Int → Option Int) (x y : Int) : Option (Int × Int) :=
  if x < 800 ∧ y < 600 then
    (paint x y).map fun color => (toInt32 (x + toInt32 (y * 800)), color)
  else none

theorem setColor_eq_storePixel {paint : Int → Int → Option Int} {color : Int}
    (isPaint : paint x y = validColor color) : setColor x y color = storePixel paint x y := by
  rw [setColor, storePixel, isPaint, validColor]
  by_cases onScreen : x < 800 ∧ y < 600
  · rw [if_pos onScreen]
    by_cases valid : 0 ≤ color ∧ color < 65536
    · rw [if_pos valid, if_neg (by omega)]
      rfl
    · rw [if_neg valid, if_pos (by omega)]
      rfl
  · rw [if_neg onScreen, if_pos (by omega)]

section

variable {rect : Rect} {paint picture : Int → Int → Option Int} {index color column row : Int}

theorem storePixel_eq_some_iff :
    storePixel paint x y = some (index, color) ↔
      (x < 800 ∧ y < 600) ∧ paint x y = some color ∧ toInt32 (x + toInt32 (y * 800)) = index := by
  rw [storePixel]
  by_cases onScreen : x < 800 ∧ y < 600
  · simp [onScreen]
  · simp [onScreen]

/-- The index of a pixel is that of a cell of the screen if it falls on it. -/
theorem index_eq_iff (columnOn : 0 ≤ column ∧ column < 800) (rowOn : 0 ≤ row ∧ row < 600) :
    toInt32 (x + toInt32 (y * 800)) = column + row * 800 ↔ FallsOn x y column row := by
  have inner : toInt32 (x + toInt32 (y * 800)) = toInt32 (x + y * 800) := by
    simp only [toInt32, BitVec.ofInt_add, BitVec.ofInt_toInt]
  rw [inner, toInt32_eq, FallsOn]
  split <;> omega

theorem mem_scan_storePixel :
    (index, color) ∈ scan rect (storePixel paint) ↔
      ∃ x y, rect.Paints paint x y color ∧ toInt32 (x + toInt32 (y * 800)) = index := by
  simp only [scan, mem_filterMap, Prod.exists, storePixel_eq_some_iff, Rect.Paints, and_assoc]

/-- The last position of the loops that writes to the cell of a pixel on the
screen. -/
theorem lastWrite_iff (columnOn : 0 ≤ column ∧ column < 800) (rowOn : 0 ≤ row ∧ row < 600) :
    LastWrite Before (pixels rect) (fun position => storePixel paint position.1 position.2)
        (column + row * 800) color (x, y) ↔
      rect.Paints paint x y color ∧ FallsOn x y column row ∧
        ∀ x' y' other, rect.Paints paint x' y' other → FallsOn x' y' column row →
          ¬ Before (x, y) (x', y') := by
  have writes_iff : ∀ x y color, storePixel paint x y = some (column + row * 800, color) ↔
      (x < 800 ∧ y < 600) ∧ paint x y = some color ∧ FallsOn x y column row := by
    intro x y color
    rw [storePixel_eq_some_iff, index_eq_iff columnOn rowOn]
  constructor
  · rintro ⟨visited, writes, later⟩
    obtain ⟨onScreen, painted, falls⟩ := (writes_iff x y color).mp writes
    refine ⟨⟨visited, onScreen, painted⟩, falls, ?_⟩
    rintro x' y' other ⟨visited', onScreen', painted'⟩ falls' before
    exact later (x', y') visited' before other
      ((writes_iff x' y' other).mpr ⟨onScreen', painted', falls'⟩)
  · rintro ⟨⟨visited, onScreen, painted⟩, falls, later⟩
    refine ⟨visited, (writes_iff x y color).mpr ⟨onScreen, painted, falls⟩, ?_⟩
    rintro ⟨x', y'⟩ visited' before other writes'
    obtain ⟨onScreen', painted', falls'⟩ := (writes_iff x' y' other).mp writes'
    exact later x' y' other ⟨visited', onScreen', painted'⟩ falls' before

/-- A cell that is written has a last position that writes to it, and holds its
colour afterwards, whatever the buffer held before. -/
theorem exists_write_eq (written : (index, color) ∈ scan rect (storePixel paint)) :
    ∃ last position,
      LastWrite Before (pixels rect) (fun position => storePixel paint position.1 position.2)
        index last position ∧
      ∀ buffer, write buffer (scan rect (storePixel paint)) index = last := by
  have sorted : (pixels rect).Pairwise Before := pairwise_cells _ _ _ _
  have touched : ∃ position ∈ pixels rect, ∃ color,
      (fun position : Int × Int => storePixel paint position.1 position.2) position =
        some (index, color) := by
    obtain ⟨position, visited, writes⟩ := mem_filterMap.mp written
    exact ⟨position, visited, color, writes⟩
  obtain ⟨last, position, isLast⟩ := exists_lastWrite sorted (fun _ _ => Before.asymm) touched
  exact ⟨last, position, isLast, isLast.write_eq sorted⟩

/-- An exact picture is written only to cells whose colour is specified. -/
theorem Exact.specifies (exact : Exact rect picture (scan rect (storePixel paint)))
    (columnOn : 0 ≤ column ∧ column < 800) (rowOn : 0 ≤ row ∧ row < 600)
    (written : (column + row * 800, color) ∈ scan rect (storePixel paint)) :
    ∃ specified, rect.Specifies picture column row specified := by
  obtain ⟨last, -, -, holds⟩ := exists_write_eq written
  -- Drawing on a buffer that held another colour there changes the cell.
  have shown := exact.shown (fun _ => last + 1) column row columnOn rowOn
  rw [holds] at shown
  by_cases covers : rect.Covers column row
  · rw [if_pos covers] at shown
    cases specified : picture column row with
    | none =>
      rw [specified, getD_none] at shown
      omega
    | some color => exact ⟨color, ⟨columnOn, rowOn⟩, covers, specified⟩
  · rw [if_neg covers] at shown
    omega

theorem Exact.lands (exact : Exact rect picture (scan rect (storePixel paint))) :
    rect.Lands paint picture := by
  constructor
  · intro x y color paints
    have written := mem_scan_storePixel.mpr ⟨x, y, paints, rfl⟩
    obtain ⟨low, high⟩ := exact.inside _ written
    generalize isIndex : toInt32 (x + toInt32 (y * 800)) = index at written low high
    have split : index = index % 800 + index / 800 * 800 := by omega
    have columnOn : 0 ≤ index % 800 ∧ index % 800 < 800 := by omega
    have rowOn : 0 ≤ index / 800 ∧ index / 800 < 600 := by omega
    rw [split] at written isIndex
    obtain ⟨specified, specifies⟩ := exact.specifies columnOn rowOn written
    exact ⟨_, _, specified, specifies, (index_eq_iff columnOn rowOn).mp isIndex⟩
  · rintro column row color ⟨⟨columnOn, rowOn⟩, covers, specified⟩
    have shown : ∀ buffer, write buffer (scan rect (storePixel paint)) (column + row * 800) =
        color := by
      intro buffer
      rw [exact.shown buffer column row columnOn rowOn, if_pos covers, specified]
      rfl
    have written : ∃ color, (column + row * 800, color) ∈ scan rect (storePixel paint) := by
      by_contra untouched
      have kept := shown fun _ => color + 1
      rw [write_of_untouched] at kept
      · omega
      · rintro ⟨index, other⟩ member rfl
        exact untouched ⟨other, member⟩
    obtain ⟨other, member⟩ := written
    obtain ⟨last, position, isLast, holds⟩ := exists_write_eq member
    obtain rfl : last = color := by rw [← shown fun _ => 0, holds]
    exact ⟨position.1, position.2, (lastWrite_iff columnOn rowOn).mp isLast⟩

theorem Rect.Lands.exact (lands : rect.Lands paint picture) :
    Exact rect picture (scan rect (storePixel paint)) := by
  have specifies : ∀ store ∈ scan rect (storePixel paint),
      ∃ column row specified, rect.Specifies picture column row specified ∧
        store.1 = column + row * 800 := by
    rintro ⟨index, color⟩ member
    obtain ⟨x, y, paints, isIndex⟩ := mem_scan_storePixel.mp member
    obtain ⟨column, row, specified, specifies, falls⟩ := lands.falls x y color paints
    obtain ⟨columnOn, rowOn⟩ := specifies.1
    exact ⟨column, row, specified, specifies,
      isIndex.symm.trans ((index_eq_iff columnOn rowOn).mpr falls)⟩
  constructor
  · intro store member
    obtain ⟨column, row, specified, ⟨⟨columnOn, rowOn⟩, -⟩, isIndex⟩ := specifies store member
    omega
  · intro buffer x y xOn yOn
    by_cases specified : ∃ color, rect.Specifies picture x y color
    · obtain ⟨color, isSpecified⟩ := specified
      obtain ⟨x', y', last⟩ := lands.last x y color isSpecified
      obtain ⟨-, covers, isColor⟩ := isSpecified
      rw [if_pos covers, isColor]
      exact ((lastWrite_iff xOn yOn).mpr last).write_eq (pairwise_cells _ _ _ _) buffer
    · have kept : write buffer (scan rect (storePixel paint)) (x + y * 800) =
          buffer (x + y * 800) := by
        apply write_of_untouched
        intro store member same
        obtain ⟨column, row, color, isSpecified, isIndex⟩ := specifies store member
        obtain ⟨columnOn, rowOn⟩ := isSpecified.1
        obtain rfl : column = x := by omega
        obtain rfl : row = y := by omega
        exact specified ⟨color, isSpecified⟩
      rw [kept]
      split
      · rename_i covers
        cases isColor : picture x y with
        | none => rfl
        | some color => exact absurd ⟨color, ⟨xOn, yOn⟩, covers, isColor⟩ specified
      · rfl

theorem exact_iff_lands :
    Exact rect picture (scan rect (storePixel paint)) ↔ rect.Lands paint picture :=
  ⟨Exact.lands, Rect.Lands.exact⟩

/-- Loops whose colours on the screen agree with the picture of a clear rectangle
are exact for clear rectangles, and else if what they paint lands on the rectangle. -/
theorem exact_iff_of_agree {stores : List (Int × Int)}
    (isScan : stores = scan rect (storePixel paint))
    (agree : 0 ≤ rect.xl ∧ 0 ≤ rect.yl → ∀ x y, rect.Covers x y → x < 800 → y < 600 →
      paint x y = picture x y) :
    Exact rect picture stores ↔ rect.Clear ∨ rect.Lands paint picture := by
  rw [isScan, exact_iff_lands]
  exact ⟨.inr, fun either => either.elim (fun clear => clear.lands agree) id⟩

end

/-! ## Pictures without gaps -/

section

variable {rect : Rect} {paint : Int → Int → Option Int}
  (painted : ∀ x y, ∃ color, paint x y = some color) (lands : rect.Lands paint paint)

include painted lands

end

/-! ## When the routines are exact -/

section

variable (rect : Rect) (memory : Memory)

theorem drawarea_exact_iff (colors : BitVec 32) :
    Exact rect (areaColor memory rect colors) (drawarea memory rect colors) ↔
      rect.Clear ∨ rect.Lands (areaColor memory rect colors) (areaColor memory rect colors) := by
  refine exact_iff_of_agree ?_ fun _ _ _ _ _ _ => rfl
  unfold drawarea
  congr 1
  funext x y
  apply setColor_eq_storePixel
  rw [areaElement_eq, areaColor]

/-- The colour `drawarea_color` stores for a pixel. -/
def glyphPaint (memory : Memory) (rect : Rect) (color : Int) (colors : BitVec 32) (x y : Int) :
    Option Int :=
  if intAt memory (glyphElement rect colors x y) = -1 then none else validColor color

theorem drawareaColor_exact_iff (color : Int) (colors : BitVec 32) :
    Exact rect (glyphColor memory rect color colors) (drawareaColor memory rect color colors) ↔
      rect.Clear ∨
        rect.Lands (glyphPaint memory rect color colors) (glyphColor memory rect color colors) := by
  apply exact_iff_of_agree
  · unfold drawareaColor
    congr 1
    funext x y
    split
    · rename_i transparent
      simp [storePixel, glyphPaint, transparent]
    · rename_i painted
      exact setColor_eq_storePixel (if_neg painted)
  · intro startsOn x y covers xOn yOn
    rw [glyphPaint, glyphElement_eq startsOn covers xOn yOn, glyphColor]

/-- The colour `drawgbk_color` stores for a pixel. -/
def gbkPaint (memory : Memory) (stack : Int → Int → Int) (rect : Rect) (color : Int)
    (gbk : BitVec 32) (x y : Int) : Option Int :=
  validColor (gbkColor memory stack color gbk (glyphCell x rect.xl 16 rect.width)
    (glyphCell y rect.yl 16 rect.height))

theorem drawgbkColor_exact_iff (stack : Int → Int → Int) (color : Int) (gbk : BitVec 32) :
    Exact rect (gbkPixel memory rect color gbk) (drawgbkColor memory stack rect color gbk) ↔
      rect.Clear ∨
        rect.Lands (gbkPaint memory stack rect color gbk) (gbkPixel memory rect color gbk) := by
  apply exact_iff_of_agree
  · unfold drawgbkColor
    congr 1
    funext x y
    simp only
    split
    · rename_i transparent
      simp [storePixel, gbkPaint, transparent, validColor]
    · exact setColor_eq_storePixel rfl
  · intro startsOn x y covers xOn yOn
    have column := scaled_lt covers.1 (by decide : (0 : Int) < 16)
    have row := scaled_lt covers.2 (by decide : (0 : Int) < 16)
    have few : (0 : Int) ≤ 16 ∧ (16 : Int) ≤ 16 := by decide
    rw [gbkPaint, glyphCell_eq startsOn.1 covers.1 xOn few,
      glyphCell_eq startsOn.2 covers.2 (by omega) few, gbkColor, if_pos ⟨column, row⟩, gbkPixel]
    split <;> rfl

end

/-! ## Shortcuts -/

/-- Two exact ways to draw a picture leave the same buffer. -/
theorem Exact.write_eq {rect : Rect} {picture : Int → Int → Option Int}
    {first second : List (Int × Int)} (firstExact : Exact rect picture first)
    (secondExact : Exact rect picture second) (buffer : Int → Int) :
    write buffer first = write buffer second := by
  funext index
  by_cases inside : 0 ≤ index ∧ index < 800 * 600
  · have firstShown := firstExact.shown buffer (index % 800) (index / 800) (by omega) (by omega)
    have secondShown := secondExact.shown buffer (index % 800) (index / 800) (by omega) (by omega)
    rw [show index % 800 + index / 800 * 800 = index by omega] at firstShown secondShown
    exact firstShown.trans secondShown.symm
  · have untouched : ∀ {stores}, Exact rect picture stores → write buffer stores index =
        buffer index := by
      intro stores exact
      apply write_of_untouched
      intro store member same
      exact inside (same ▸ exact.inside store member)
    rw [untouched firstExact, untouched secondExact]

end XEditor.Kernel
