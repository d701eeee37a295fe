import Mathlib.Data.List.Basic
import XEditor.Kernel.Argument

/-!
# Enlarged glyphs

A glyph drawn at `k` times its size shows each of its cells as a block of `k` by
`k` pixels.  The routines go from the pixels back to the cells; for the Han glyphs
through a table that three loops fill bit by bit.  `drawgbk` walks the same bits
forward to the pixels.
-/

namespace XEditor.Kernel

open List Option Grid

/-! ## The loops over the bits of a glyph -/

/-- The values of `i`, `j`, `k` and `n` in the loops over the bits of a glyph. -/
def gbkLoop : List ((Nat × Nat × Nat) × Nat) :=
  ((range 16).flatMap fun i => (range 2).flatMap fun j =>
    (range 8).map fun k => (i, j, k)).zipIdx

/-- The test `gbk[i * 2 + j] & (0x80 >> k)`. -/
def gbkTest (memory : Memory) (gbk : BitVec 32) (i j k : Nat) : Bool :=
  memory (element 1 gbk (i * 2 + j)) &&& (0x80 >>> k) != 0

/-- The stores of the first loops of `drawgbk_color` to `colors[n % 16][n / 16]`. -/
def gbkStores (memory : Memory) (color : Int) (gbk : BitVec 32) : List ((Int × Int) × Int) :=
  gbkLoop.map fun ((i, j, k), n) =>
    ((((n % 16 : Nat) : Int), ((n / 16 : Nat) : Int)),
      if gbkTest memory gbk i j k then color else -1)

/-- `drawgbk_color` with the loops that fill its table. -/
def drawgbkColorLoops (memory : Memory) (stack : Int → Int → Int) (rect : Rect) (color : Int)
    (gbk : BitVec 32) : List (Int × Int) :=
  let colors := write (fun cell => stack cell.1 cell.2) (gbkStores memory color gbk)
  scan rect fun x y =>
    let c := colors (glyphCell x rect.xl 16 rect.width, glyphCell y rect.yl 16 rect.height)
    if c = -1 then none else setColor x y c

/-- Source `drawgbk`. -/
def drawgbk (memory : Memory) (rect : Rect) (gbk : BitVec 32) : List (Int × Int) :=
  gbkLoop.filterMap fun ((i, j, k), n) =>
    if gbkTest memory gbk i j k then
      setColor (toInt32 (rect.xl + (n : Int).tmod rect.width))
        (toInt32 (rect.yl + (n : Int).tdiv rect.width)) 0
    else none

/-- The counter `n` determines the three others. -/
theorem gbkLoop_eq : gbkLoop = (range 256).map fun n => ((n / 16, n / 8 % 2, n % 8), n) := by
  decide +kernel

theorem mem_gbkLoop {i j k n : Nat} :
    ((i, j, k), n) ∈ gbkLoop ↔ n < 256 ∧ i = n / 16 ∧ j = n / 8 % 2 ∧ k = n % 8 := by
  simp only [gbkLoop_eq, List.mem_map, mem_range, Prod.mk.injEq]
  constructor
  · rintro ⟨m, bound, ⟨rfl, rfl, rfl⟩, rfl⟩
    exact ⟨bound, rfl, rfl, rfl⟩
  · rintro ⟨bound, rfl, rfl, rfl⟩
    exact ⟨n, bound, ⟨rfl, rfl, rfl⟩, rfl⟩

section

variable {memory : Memory} {gbk : BitVec 32}

/-- The test in the loops is the one of the cell in the column `n % 16` and the row
`n / 16`. -/
theorem gbkTest_eq (n : Nat) :
    gbkTest memory gbk (n / 16) (n / 8 % 2) (n % 8) =
      gbkBit memory gbk (n % 16 : Nat) (n / 16 : Nat) := by
  have byte : ((n / 16 : Nat) : Int) * 2 + (n / 8 % 2 : Nat) =
      (n / 16 : Nat) * 2 + ((n % 16 : Nat) : Int) / 8 := by omega
  have bit : (((n % 16 : Nat) : Int) % 8).toNat = n % 8 := by omega
  rw [gbkTest, gbkBit, byte, bit]

/-- The loops fill the table as the closed form of `gbkColor` reads it. -/
theorem write_gbkStores (stack : Int → Int → Int) (color column row : Int) :
    write (fun cell => stack cell.1 cell.2) (gbkStores memory color gbk) (column, row) =
      gbkColor memory stack color gbk column row := by
  rw [gbkColor]
  by_cases inside : (0 ≤ column ∧ column < 16) ∧ 0 ≤ row ∧ row < 16
  · rw [if_pos inside]
    -- The only store to the cell is the one of `n = 16 * row + column`.
    apply write_of_agree
    · have bound : (16 * row + column).toNat < 256 := by omega
      refine ⟨_, mem_map_of_mem (mem_gbkLoop.mpr ⟨bound, rfl, rfl, rfl⟩), ?_⟩
      simp only [Prod.mk.injEq]
      omega
    · intro store member same
      obtain ⟨⟨⟨i, j, k⟩, n⟩, inLoop, rfl⟩ := mem_map.mp member
      obtain ⟨-, rfl, rfl, rfl⟩ := mem_gbkLoop.mp inLoop
      obtain ⟨rfl, rfl⟩ := Prod.mk.inj same
      simp only [gbkTest_eq]
  · rw [if_neg inside]
    apply write_of_untouched
    intro store member same
    obtain ⟨⟨⟨i, j, k⟩, n⟩, inLoop, rfl⟩ := mem_map.mp member
    obtain ⟨bound, -⟩ := mem_gbkLoop.mp inLoop
    obtain ⟨rfl, rfl⟩ := Prod.mk.inj same
    omega

theorem drawgbkColorLoops_eq (stack : Int → Int → Int) (rect : Rect) (color : Int) :
    drawgbkColorLoops memory stack rect color gbk = drawgbkColor memory stack rect color gbk := by
  simp only [drawgbkColorLoops, drawgbkColor, write_gbkStores]

end

/-! ## Rectangles on the screen -/

/-- The rectangle fits on the screen. -/
structure Rect.OnScreen (rect : Rect) : Prop where
  left : 0 ≤ rect.xl
  top : 0 ≤ rect.yl
  right : rect.xl + rect.width ≤ 800
  bottom : rect.yl + rect.height ≤ 600

theorem Rect.OnScreen.clear {rect : Rect} (on : rect.OnScreen) : rect.Clear := by
  obtain ⟨left, top, right, bottom⟩ := on
  refine ⟨fun _ => ⟨left, top⟩, fun none meets => none ?_⟩
  obtain ⟨x, y, ⟨columns, rows⟩, -⟩ := meets
  rw [Rect.Stores, toInt32_of_isInt32 ⟨by omega, by omega⟩, toInt32_of_isInt32 ⟨by omega, by omega⟩]
  omega

section

variable {rect : Rect} {picture other : Int → Int → Option Int} {stores : List (Int × Int)}

/-- Only the colours inside the rectangle count. -/
theorem Exact.congr (exact : Exact rect picture stores)
    (same : ∀ x y, rect.Covers x y → picture x y = other x y) : Exact rect other stores where
  inside := exact.inside
  shown := by
    intro buffer x y xOn yOn
    rw [exact.shown buffer x y xOn yOn]
    split
    · rename_i covers
      rw [same x y covers]
    · rfl

end

/-- A pixel of a glyph enlarged `k` times is scaled to the cell of its block. -/
theorem scaled_eq {v cells k : Int} (some : 0 < cells) : v * cells / (cells * k) = v / k := by
  rw [Int.mul_comm v, Int.mul_ediv_mul_of_pos _ _ some]

/-- `drawgbk` at its own size draws the bits of the glyph in black. -/
theorem drawgbk_exact {rect : Rect} (on : rect.OnScreen) (width : rect.width = 16)
    (height : rect.height = 16) (memory : Memory) (gbk : BitVec 32) :
    Exact rect (fun x y => if gbkBit memory gbk (x - rect.xl) (y - rect.yl) then some 0 else none)
      (drawgbk memory rect gbk) := by
  -- The loops visit the pixels of the rectangle in order.
  have pixels_eq : pixels rect =
      (range 256).map fun n => (rect.xl + (n % 16 : Nat), rect.yl + (n / 16 : Nat)) := by
    have sixteen (low : Int) : (low + 16 - low).toNat = 16 := by omega
    have grid : (range 256).map (fun n => (n % 16, n / 16)) =
        (range 16).flatMap fun row => (range 16).map fun column => (column, row) := by
      decide +kernel
    have moved :=
      congrArg (map fun (column, row) => (rect.xl + (column : Nat), rect.yl + (row : Nat))) grid
    obtain ⟨left, top, right, bottom⟩ := on
    rw [pixels, width, height, toInt32_of_isInt32 ⟨by omega, by omega⟩,
      toInt32_of_isInt32 ⟨by omega, by omega⟩, Grid.cells, Grid.span, Grid.span, sixteen, sixteen]
    simpa [map_flatMap, flatMap_map, Function.comp_def] using moved.symm
  have stores_eq : drawgbk memory rect gbk = scan rect (storePixel fun x y =>
      if gbkBit memory gbk (x - rect.xl) (y - rect.yl) then some 0 else none) := by
    obtain ⟨left, top, right, bottom⟩ := on
    rw [drawgbk, gbkLoop_eq, filterMap_map, scan, pixels_eq, filterMap_map]
    refine filterMap_congr fun n inLoop => ?_
    have bound := mem_range.mp inLoop
    have column : (n : Int).tmod 16 = (n % 16 : Nat) := rfl
    have row : (n : Int).tdiv 16 = (n / 16 : Nat) := rfl
    simp only [Function.comp_apply, width, column, row, gbkTest_eq]
    rw [toInt32_of_isInt32 ⟨by omega, by omega⟩, toInt32_of_isInt32 ⟨by omega, by omega⟩]
    split
    · rename_i bit
      apply setColor_eq_storePixel
      rw [add_sub_cancel_left, add_sub_cancel_left, if_pos bit]
      rfl
    · rename_i noBit
      rw [storePixel, add_sub_cancel_left, add_sub_cancel_left, if_neg noBit]
      exact (ite_self _).symm
  rw [stores_eq, exact_iff_lands]
  exact on.clear.lands fun _ _ _ _ _ _ => rfl

/-- A glyph drawn at `k` times its size shows the blocks of its cells in its colour
and leaves the other pixels.  At its own size and in black it is drawn as by the
routines that do not scale. -/
theorem enlarged_exact (memory : Memory) (stack : Int → Int → Int) (rect : Rect)
    (address : BitVec 32) (on : rect.OnScreen) (k : Int) {color : Int}
    (valid : 0 ≤ color ∧ color < 65536) :
    (rect.width = 8 * k → rect.height = 16 * k → Exact rect (fun x y =>
        if intAt memory (element 4 address ((x - rect.xl) / k + (y - rect.yl) / k * 8)) = -1
        then none else some color) (drawareaColor memory rect color address)) ∧
    (rect.width = 16 * k → rect.height = 16 * k → Exact rect (fun x y =>
        if gbkBit memory address ((x - rect.xl) / k) ((y - rect.yl) / k) then some color else none)
      (drawgbkColorLoops memory stack rect color address)) ∧
    (rect.width = 8 → rect.height = 16 →
      (∀ index : Int, 0 ≤ index ∧ index < 128 → intAt memory (element 4 address index) = 0 ∨
        intAt memory (element 4 address index) = -1) →
      ∀ buffer, write buffer (drawareaColor memory rect 0 address) =
        write buffer (drawarea memory rect address)) ∧
    (rect.width = 16 → rect.height = 16 →
      ∀ buffer, write buffer (drawgbkColorLoops memory stack rect 0 address) =
        write buffer (drawgbk memory rect address)) := by
  have isValid : validColor color = some color := if_pos valid
  refine ⟨?_, ?_, ?_, ?_⟩
  · intro width height
    apply ((drawareaColor_exact_iff rect memory color address).mpr (.inl on.clear)).congr
    intro x y _
    simp only [glyphColor, width, height, scaled_eq (show (0 : Int) < 8 by decide),
      scaled_eq (show (0 : Int) < 16 by decide), isValid]
  · intro width height
    rw [drawgbkColorLoops_eq]
    apply ((drawgbkColor_exact_iff rect memory stack color address).mpr (.inl on.clear)).congr
    intro x y _
    simp only [gbkPixel, width, height, scaled_eq (show (0 : Int) < 16 by decide), isValid]
  · intro width height entries
    apply (((drawareaColor_exact_iff rect memory 0 address).mpr (.inl on.clear)).congr ?_).write_eq
      ((drawarea_exact_iff rect memory address).mpr (.inl on.clear))
    intro x y covers
    rw [Rect.Covers, width, height] at covers
    simp only [glyphColor, areaColor, width, height,
      Int.mul_ediv_cancel _ (show (8 : Int) ≠ 0 by decide),
      Int.mul_ediv_cancel _ (show (16 : Int) ≠ 0 by decide)]
    rcases entries ((x - rect.xl) + (y - rect.yl) * 8) (by omega) with set | clear
    · rw [set]
      rfl
    · rw [clear]
      rfl
  · intro width height
    rw [drawgbkColorLoops_eq]
    apply (((drawgbkColor_exact_iff rect memory stack 0 address).mpr
      (.inl on.clear)).congr ?_).write_eq
      (drawgbk_exact on width height memory address)
    intro x y _
    simp only [gbkPixel, width, height, Int.mul_ediv_cancel _ (show (16 : Int) ≠ 0 by decide)]
    rfl

theorem isInt32_twice : IsInt32 32 := by
  decide

/-- A glyph at twice its size in the upper left corner of the screen. -/
def cornerGlyph : Rect :=
  atOrigin 32 32 isInt32_twice isInt32_twice

theorem enlarged_exact_corner :
    cornerGlyph.width = 16 * 2 ∧ Exact cornerGlyph (fun x y =>
        if gbkBit (fun _ => 0xff) 0 ((x - 0) / 2) ((y - 0) / 2) then some 7 else none)
      (drawgbkColorLoops (fun _ => 0xff) (fun _ _ => 0) cornerGlyph 7 0) :=
  ⟨rfl, (enlarged_exact (fun _ => 0xff) (fun _ _ => 0) cornerGlyph 0
    ⟨by decide, by decide, by decide, by decide⟩ 2 (by decide)).2.1 rfl rfl⟩

end XEditor.Kernel
