import XEditor.Gui.Clipping

/-!
# Glyph lookups

The editors look up the glyph of each character they draw: one byte in
`char_to_area`, a pair of Han bytes in `gbk_to_point`.  Every pair finds 32 bytes
inside its table, as an offset outside it is replaced by 0.  The index of one byte
is a `char`, which is negative from 128 on.
-/

namespace XEditor.Gui

open List Edit Text

/-- What is looked up: an index of `char_to_area`, or an offset of 32 bytes in
`gbk_to_point`. -/
inductive Glyph where
  | ascii (index : Int)
  | gbk (offset : Int)
  deriving DecidableEq, Repr

/-- Source `get_text_area`, whose argument is a `char`. -/
def getTextArea (c : UInt8) : Glyph :=
  .ascii c.toBitVec.toInt

/-- Source `get_gbk_point_by_offset`. -/
def getGbkPointByOffset (offset : Int) : Glyph :=
  if offset < 0 then .gbk 0 else if offset ≥ 320000 then .gbk 0 else .gbk offset

/-- Source `get_gbk_point_by_c1_c2`. -/
def getGbkPointByC1C2 (c1 c2 : Int) : Glyph :=
  let qh := c1 - 0xa0
  let wh := c2 - 0xa0
  getGbkPointByOffset ((94 * (qh - 1) + (wh - 1)) * 32)

/-- The test `is_han` of `draw_TextEdit` at a column. -/
def isHanPair (line : Row) (col : Nat) : Bool :=
  isHan (line.getD col 0) && decide (col + 1 < line.length) && isHan (line.getD (col + 1) 0)

/-- The lookup of `draw_TextEdit` for the character at a column. -/
def textGlyph (line : Row) (col : Nat) : Glyph :=
  if isHanPair line col then
    getGbkPointByC1C2 (line.getD col 0).toNat (line.getD (col + 1) 0).toNat
  else getTextArea (line.getD col 0)

/-- The row of a character of a text. -/
def Textframe.lineOf (text : Textframe) (cell : Cell) : Row :=
  text.data.getD cell.row []

/-- The lookups of `draw_TextEdit`, one for each character it draws. -/
def textGlyphs (edit : TextEdit) (parent : Area) : List Glyph :=
  (textCells edit parent).map fun cell => textGlyph (Textframe.lineOf edit.text cell) cell.col

/-- The characters that `draw_LineEdit` draws: each byte is one. -/
def lineCells (edit : LineEdit) (parent : Area) : List Cell :=
  edit.text.data.zipIdx.flatMap fun (line, row) => (range line.length).flatMap fun col =>
    drawChar (calcCurrentArea parent edit.area) row col 8 8 16

/-- The lookups of `draw_LineEdit`. -/
def lineGlyphs (edit : LineEdit) (parent : Area) : List Glyph :=
  (lineCells edit parent).map fun cell =>
    getTextArea ((Textframe.lineOf edit.text cell).getD cell.col 0)

/-- The glyph lies inside its table. -/
def Glyph.Inside : Glyph → Prop
  | .ascii index => 0 ≤ index ∧ index ≤ 255
  | .gbk offset => 0 ≤ offset ∧ offset + 32 ≤ 320000

/-- Two glyphs of 32 bytes share no byte. -/
def Glyph.Apart : Glyph → Glyph → Prop
  | .gbk offset, .gbk other => offset + 32 ≤ other ∨ other + 32 ≤ offset
  | _, _ => False

theorem getTextArea_inside_iff (c : UInt8) : (getTextArea c).Inside ↔ c.toNat < 128 := by
  rw [getTextArea, Glyph.Inside, BitVec.toInt_eq_toNat_cond, ← UInt8.toNat_toBitVec]
  split <;> omega

/-- Any two bytes find a glyph: the offsets are multiples of its size. -/
theorem getGbkPointByC1C2_inside (c1 c2 : Int) : (getGbkPointByC1C2 c1 c2).Inside := by
  rw [getGbkPointByC1C2, getGbkPointByOffset]
  split
  · exact ⟨by decide, by decide⟩
  · split
    · exact ⟨by decide, by decide⟩
    · exact ⟨by omega, by omega⟩

theorem getGbkPointByC1C2_eq {c1 c2 : Int} (first : 161 ≤ c1 ∧ c1 ≤ 254)
    (second : 161 ≤ c2 ∧ c2 ≤ 254) :
    getGbkPointByC1C2 c1 c2 = .gbk ((94 * (c1 - 161) + (c2 - 161)) * 32) := by
  rw [getGbkPointByC1C2, getGbkPointByOffset, if_neg (by omega), if_neg (by omega)]
  congr 1
  omega

theorem textGlyph_inside_iff (line : Row) (col : Nat) :
    (textGlyph line col).Inside ↔ isHanPair line col = true ∨ (line.getD col 0).toNat < 128 := by
  rw [textGlyph]
  by_cases pair : isHanPair line col = true
  · rw [if_pos pair]
    exact iff_of_true (getGbkPointByC1C2_inside _ _) (.inl pair)
  · rw [if_neg pair, getTextArea_inside_iff, or_iff_right pair]

/-- The lookups stay inside the tables if and only if each byte of 128 or more
that is drawn is the first of a pair, in a one-line edit if there is none.  The
Han characters of the table have glyphs apart from each other. -/
theorem glyphs_inside_iff (edit : TextEdit) (line : LineEdit) (parent : Area) :
    ((∀ glyph ∈ textGlyphs edit parent, glyph.Inside) ↔
      ∀ cell ∈ textCells edit parent, isHanPair (Textframe.lineOf edit.text cell) cell.col = true ∨
        ((Textframe.lineOf edit.text cell).getD cell.col 0).toNat < 128) ∧
    ((∀ glyph ∈ lineGlyphs line parent, glyph.Inside) ↔
      ∀ cell ∈ lineCells line parent,
        ((Textframe.lineOf line.text cell).getD cell.col 0).toNat < 128) ∧
    ∀ c1 c2 d1 d2 : Int, (161 ≤ c1 ∧ c1 ≤ 254) → (161 ≤ c2 ∧ c2 ≤ 254) →
      (161 ≤ d1 ∧ d1 ≤ 254) → (161 ≤ d2 ∧ d2 ≤ 254) → (c1, c2) ≠ (d1, d2) →
        (getGbkPointByC1C2 c1 c2).Apart (getGbkPointByC1C2 d1 d2) := by
  refine ⟨?_, ?_, ?_⟩
  · simp only [textGlyphs, forall_mem_map, textGlyph_inside_iff]
  · simp only [lineGlyphs, forall_mem_map, getTextArea_inside_iff]
  intro c1 c2 d1 d2 first second third fourth different
  rw [getGbkPointByC1C2_eq first second, getGbkPointByC1C2_eq third fourth, Glyph.Apart]
  have : ¬ (c1 = d1 ∧ c2 = d2) := fun same => different (Prod.ext same.1 same.2)
  omega

/-- A lone Han byte is looked up in front of `char_to_area`. -/
theorem lone_byte_outside :
    textGlyphs { cornerEdit 0 with text := lineEditSetStr [200] } screen = [.ascii (-56)] ∧
      ¬ (Glyph.ascii (-56)).Inside :=
  ⟨by decide, fun inside => absurd inside.1 (by decide)⟩

end XEditor.Gui
