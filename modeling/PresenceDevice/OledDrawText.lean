import PresenceDevice.OledText
import PresenceDevice.PresenceLayout

/-!
# Text from any column

`oled_draw_text` draws from any start column, on any page, as many cells as there are up to the
right edge. Its column variable has eight bits; the check after each character stops the loop
before it could wrap.

## Main definitions

* `textColumns`: the columns that the loop visits
* `OledDrawsText`: what the drawing consists of

## Main results

* `oledDrawTextFrom_eq_foldl`, `textColumns_eq`: the loop draws at every sixth column
* `oledDrawText_draws`: `oled_draw_text` draws its text and touches nothing else
-/

namespace PresenceDevice

variable {x page : ℕ} {text : CString} {buffer : Frame}

/-- The values of `x` at the passes of the loop of `oled_draw_text`. -/
def textColumns (x : ℕ) : List UInt8 → List ℕ
  | [] => []
  | _ :: rest =>
    x :: if x + glyphWidth > oledWidth then [] else textColumns ((x + glyphWidth + 1) % 256) rest

/-- What `oled_draw_text` makes of a framebuffer. -/
structure OledDrawsText (x page : ℕ) (text : CString) (before after : Frame) : Prop where
  /-- The cells are inside the page. -/
  inside : ∀ k < textCells x, x + k * cellWidth + glyphWidth ≤ oledWidth
  /-- Each character with a glyph is in its cell. -/
  drawn : page < oledPages → ∀ k < min text.strlen (textCells x), ∀ glyph,
    fontGetGlyph (text.charAt k) = some glyph → ∀ (column : Fin glyphWidth)
      (i : Fin (oledWidth * oledPages)),
        (i : ℕ) = page * oledWidth + (x + k * cellWidth) + column → after i = glyph column
  /-- No other byte changes. -/
  kept : ∀ i : Fin (oledWidth * oledPages), after i ≠ before i → page < oledPages ∧
    ∃ k < min text.strlen (textCells x), ∃ glyph, fontGetGlyph (text.charAt k) = some glyph ∧
      ∃ column : Fin glyphWidth, (i : ℕ) = page * oledWidth + (x + k * cellWidth) + column
  /-- Each pass of the loop draws one character at its column. -/
  passes : after = ((textColumns x text.bytes).zip text.bytes).foldl (fun buffer cell =>
    (fontGetGlyph cell.2).elim buffer fun glyph => oledDrawChar cell.1 page glyph buffer) before
  /-- The loop ends behind the last cell, at the latest. -/
  columns : textColumns x text.bytes =
    (List.range (min text.strlen (textCells x + 1))).map fun k => x + k * cellWidth
  /-- The column fits its eight bits at every pass. -/
  no_wrap : ∀ column ∈ textColumns x text.bytes, column < 256

/-! ### The columns of the loop -/

/-- The passes of the loop are these columns with the characters of the text. -/
theorem oledDrawTextFrom_eq_foldl (text : List UInt8) :
    oledDrawTextFrom x page text buffer =
      ((textColumns x text).zip text).foldl (fun buffer cell =>
        (fontGetGlyph cell.2).elim buffer fun glyph => oledDrawChar cell.1 page glyph buffer)
        buffer := by
  induction text generalizing x buffer with
  | nil => rfl
  | cons character rest ih =>
    rw [oledDrawTextFrom, textColumns, List.zip_cons_cons, List.foldl_cons]
    split_ifs
    · rfl
    · exact ih

theorem textColumns_eq (x : ℕ) (text : List UInt8) :
    textColumns x text =
      (List.range (min text.length (textCells x + 1))).map fun k => x + k * cellWidth := by
  induction text generalizing x with
  | nil => simp [textColumns]
  | cons character rest ih =>
    rw [textColumns, List.length_cons, Nat.add_min_add_right, List.range_succ_eq_map,
      List.map_cons, List.map_map, Nat.zero_mul, Nat.add_zero]
    congr 1
    split_ifs with hx
    · rw [textCells_of_gt hx, Nat.min_zero]
      rfl
    · have hfits := Nat.le_of_not_lt hx
      rw [next_column hfits, ih, ← textCells_succ hfits]
      apply List.map_congr_left
      intro k _
      simp only [Function.comp_apply, Nat.succ_eq_add_one, Nat.add_mul, Nat.one_mul]
      omega

theorem textColumns_lt (hx : x < 256) (text : List UInt8) :
    ∀ column ∈ textColumns x text, column < 256 := by
  rw [textColumns_eq]
  intro column hcolumn
  obtain ⟨k, hk, rfl⟩ := List.mem_map.mp hcolumn
  have hlt := List.mem_range.mp hk
  cases k with
  | zero => omega
  | succ k =>
    -- the cell before this column is inside the page
    have hfits := textCell_fits (x := x) (k := k) (by omega)
    simp only [cellWidth, glyphWidth, oledWidth] at hfits ⊢
    omega

/-! ### The drawing -/

theorem oledDrawTextFrom_of_page_ge (hpage : oledPages ≤ page) (text : List UInt8) :
    oledDrawTextFrom x page text buffer = buffer := by
  have hskip : ∀ x glyph, oledDrawChar x page glyph buffer = buffer :=
    fun x glyph => dif_pos (Or.inl hpage)
  induction text generalizing x with
  | nil => rfl
  | cons character rest ih =>
    rw [oledDrawTextFrom]
    have hchar : ((fontGetGlyph character).elim buffer
        fun glyph => oledDrawChar x page glyph buffer) = buffer := by
      cases fontGetGlyph character with
      | none => rfl
      | some glyph => exact hskip x glyph
    simp only [hchar]
    split_ifs
    · rfl
    · exact ih

/-- What a character puts into its cell is its glyph. -/
theorem glyphByte_eq_some_iff {character byte : UInt8} {column : ℕ} :
    glyphByte character column = some byte ↔
      ∃ glyph, fontGetGlyph character = some glyph ∧
        ∃ h : column < glyphWidth, glyph ⟨column, h⟩ = byte := by
  rw [glyphByte]
  split_ifs with h
  · simp [h]
  · simp [h]

/-- The page, the cell and the column of a byte that is in a cell. -/
theorem cell_coordinates {i k column : ℕ} (hk : k < textCells x) (hcolumn : column < glyphWidth)
    (hi : i = page * oledWidth + (x + k * cellWidth) + column) :
    i / oledWidth = page ∧ x ≤ i % oledWidth ∧ (i % oledWidth - x) / cellWidth = k ∧
      (i % oledWidth - x) % cellWidth = column := by
  have hfits := textCell_fits hk
  have hlt : column < cellWidth := Nat.lt_succ_of_lt hcolumn
  have hrow : i / oledWidth = page := by
    simp only [cellWidth, glyphWidth, oledWidth] at *
    omega
  have hmod : i % oledWidth = x + k * cellWidth + column := by
    simp only [cellWidth, glyphWidth, oledWidth] at *
    omega
  have hsub : i % oledWidth - x = column + k * cellWidth := by omega
  refine ⟨hrow, by omega, ?_, ?_⟩
  · rw [hsub, Nat.add_mul_div_right _ _ (by decide), Nat.div_eq_of_lt hlt, Nat.zero_add]
  · rw [hsub, Nat.add_mul_mod_self_right, Nat.mod_eq_of_lt hlt]

/-- The byte at these coordinates. -/
theorem eq_of_cell_coordinates {i : ℕ} (hrow : i / oledWidth = page) (hle : x ≤ i % oledWidth) :
    i = page * oledWidth + (x + (i % oledWidth - x) / cellWidth * cellWidth) +
      (i % oledWidth - x) % cellWidth := by
  have hdiv := Nat.div_add_mod (i % oledWidth - x) cellWidth
  have hsplit := Nat.div_add_mod i oledWidth
  rw [hrow] at hsplit
  rw [Nat.mul_comm] at hdiv hsplit
  omega

/-- **`oled_draw_text` draws its text and touches nothing else**, from any column and on any
page. -/
theorem oledDrawText_draws (x page : ℕ) (hx : x < 256) (text : CString) (buffer : Frame) :
    OledDrawsText x page text buffer (oledDrawText x page text buffer) ∧
      textCells 0 = presenceLineChars := by
  refine ⟨?_, rfl⟩
  constructor
  case inside => exact fun k hk => textCell_fits hk
  case drawn =>
    intro hpage k hk glyph hglyph column i hi
    obtain ⟨hrow, hle, hcell, hoffset⟩ := cell_coordinates (by omega) column.isLt hi
    have hbyte : glyphByte (text.charAt k) column = some (glyph column) :=
      glyphByte_eq_some_iff.mpr ⟨glyph, hglyph, column.isLt, rfl⟩
    have hcond : (i : ℕ) / oledWidth = page ∧ x ≤ (i : ℕ) % oledWidth ∧ k < textCells x :=
      ⟨hrow, hle, by omega⟩
    rw [oledDrawText, oledDrawTextFrom_apply hpage, hcell, hoffset, if_pos hcond]
    exact congrArg (·.getD (buffer i)) hbyte
  case kept =>
    intro i hne
    rcases Nat.lt_or_ge page oledPages with hpage | hpage
    · rw [oledDrawText, oledDrawTextFrom_apply hpage] at hne
      split_ifs at hne with hcond
      · obtain ⟨hrow, hle, hcell⟩ := hcond
        cases hbyte : glyphByte (text.charAt (((i : ℕ) % oledWidth - x) / cellWidth))
            (((i : ℕ) % oledWidth - x) % cellWidth) with
        | none =>
          rw [CString.charAt] at hbyte
          rw [hbyte] at hne
          exact absurd rfl hne
        | some byte =>
          obtain ⟨glyph, hglyph, hcolumn, -⟩ := glyphByte_eq_some_iff.mp hbyte
          have hlt : ((i : ℕ) % oledWidth - x) / cellWidth < text.strlen := by
            by_contra hge
            rw [CString.charAt_of_le (Nat.le_of_not_lt hge), fontGetGlyph_zero] at hglyph
            cases hglyph
          exact ⟨hpage, _, Nat.lt_min.mpr ⟨hlt, hcell⟩, glyph, hglyph, ⟨_, hcolumn⟩,
            eq_of_cell_coordinates hrow hle⟩
      · exact absurd rfl hne
    · rw [oledDrawText, oledDrawTextFrom_of_page_ge hpage] at hne
      exact absurd rfl hne
  case passes => exact oledDrawTextFrom_eq_foldl text.bytes
  case columns => exact textColumns_eq x text.bytes
  case no_wrap => exact textColumns_lt hx text.bytes

/-- Two characters at the right edge, of which one fits. -/
theorem oledDrawText_draws_edge :
    OledDrawsText 120 7 (.ofString "OK") oledClear (oledDrawText 120 7 (.ofString "OK") oledClear) ∧
      textCells 0 = presenceLineChars :=
  oledDrawText_draws 120 7 (by decide) (.ofString "OK") oledClear

end PresenceDevice
