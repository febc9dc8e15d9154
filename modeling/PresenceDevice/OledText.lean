import PresenceDevice.Library.Writes
import PresenceDevice.Oled

/-!
# What a line of text looks like

`oled_draw_text` from column 0 puts character `n` of its text into the cell of six columns that
starts at column `6 * n`. A page has room for 21 such cells; a character beyond them, or without a
glyph, draws nothing. `renderText` states this for one page without any loop, and
`oledDrawText_apply` shows that the driver does it and touches no other page.

## Main results

* `oledDrawText_apply`: what `oled_draw_text` does to each byte of the framebuffer
* `cell_fits`: up to 21 characters are drawn in full
-/

namespace PresenceDevice

/-- Columns from one character to the next. -/
def cellWidth : ℕ := glyphWidth + 1

/-- The byte that a character puts into a column of its cell, if any. -/
def glyphByte (character : UInt8) (column : ℕ) : Option UInt8 :=
  if h : column < glyphWidth then (fontGetGlyph character).map (· ⟨column, h⟩) else none

/-- The byte that a text starting at column 0 puts into a column of its page, if any. -/
def drawnByte (text : CString) (column : ℕ) : Option UInt8 :=
  if column / cellWidth * cellWidth + glyphWidth ≤ oledWidth then
    glyphByte (text.charAt (column / cellWidth)) (column % cellWidth)
  else none

/-- A page with nothing but a text on it. -/
def renderText (text : CString) (column : ℕ) : UInt8 := (drawnByte text column).getD 0

/-- Characters that fit on a page. -/
def oledTextCells : ℕ := 21

theorem cell_fits {n : ℕ} : n * cellWidth + glyphWidth ≤ oledWidth ↔ n < oledTextCells := by
  simp only [cellWidth, glyphWidth, oledWidth, oledTextCells]
  omega

theorem fontGetGlyph_zero : fontGetGlyph 0 = none := by decide

@[simp] theorem glyphByte_zero (column : ℕ) : glyphByte 0 column = none := by
  rw [glyphByte, fontGetGlyph_zero]
  split_ifs <;> rfl

/-- An empty text draws nothing. -/
@[simp] theorem drawnByte_default (column : ℕ) : drawnByte default column = none := by
  have hzero : (default : CString).charAt (column / cellWidth) = 0 :=
    CString.charAt_of_le (Nat.zero_le _)
  rw [drawnByte, hzero, glyphByte_zero]
  exact ite_self none

/-! ### One character -/

theorem oledDrawChar_of_ne {x page : ℕ} {glyph : Glyph} {buffer : Frame}
    {i : Fin (oledWidth * oledPages)}
    (h : ∀ column < glyphWidth, page * oledWidth + x + column ≠ i) :
    oledDrawChar x page glyph buffer i = buffer i := by
  unfold oledDrawChar
  split_ifs with hclip
  · rfl
  · refine Writes.foldl_update_of_ne (fun column _ heq => ?_) buffer
    exact h column column.isLt (congrArg Fin.val heq)

theorem oledDrawChar_at {x page column : ℕ} {glyph : Glyph} {buffer : Frame}
    {i : Fin (oledWidth * oledPages)} (hpage : page < oledPages) (hx : x + glyphWidth ≤ oledWidth)
    (hcolumn : column < glyphWidth) (hi : (i : ℕ) = page * oledWidth + x + column) :
    oledDrawChar x page glyph buffer i = glyph ⟨column, hcolumn⟩ := by
  have hclip : ¬ (page ≥ oledPages ∨ x + glyphWidth > oledWidth) := by
    rw [not_or, Nat.not_le, Nat.not_lt]
    exact ⟨hpage, hx⟩
  obtain rfl : i = ⟨page * oledWidth + x + column, draw_index_lt hclip hcolumn⟩ := Fin.ext hi
  rw [oledDrawChar, dif_neg hclip]
  refine Writes.foldl_update_of_mem (a := (⟨column, hcolumn⟩ : Fin glyphWidth))
    (fun a b heq => ?_) (List.mem_finRange _) (List.nodup_finRange _) buffer
  exact Fin.ext (Nat.add_left_cancel (congrArg Fin.val heq))

/-- A character from column `x` on stays inside the cell of six columns there. -/
theorem drawCell_apply {x page : ℕ} (character : UInt8) (buffer : Frame) (hpage : page < oledPages)
    (hx : x + glyphWidth ≤ oledWidth) (i : Fin (oledWidth * oledPages)) :
    (fontGetGlyph character).elim buffer (fun glyph => oledDrawChar x page glyph buffer) i =
      (if (i : ℕ) / oledWidth = page ∧ x ≤ (i : ℕ) % oledWidth then
        glyphByte character ((i : ℕ) % oledWidth - x)
      else none).getD (buffer i) := by
  cases hglyph : fontGetGlyph character with
  | none => simp [glyphByte, hglyph]
  | some glyph =>
    rw [Option.elim_some, glyphByte, hglyph]
    by_cases h : ((i : ℕ) / oledWidth = page ∧ x ≤ (i : ℕ) % oledWidth) ∧
        (i : ℕ) % oledWidth - x < glyphWidth
    · rw [if_pos h.1, dif_pos h.2]
      refine oledDrawChar_at hpage hx h.2 ?_
      simp only [oledWidth, glyphWidth] at *
      omega
    · have hother : oledDrawChar x page glyph buffer i = buffer i := by
        refine oledDrawChar_of_ne fun column hcolumn heq => h ?_
        simp only [oledWidth, glyphWidth] at hx hcolumn heq ⊢
        omega
      rw [hother]
      split_ifs with h1 h2
      · exact absurd ⟨h1, h2⟩ h
      · rfl
      · rfl

/-! ### A whole text -/

/-- `N(x)`: the cells from column `x` to the right edge. -/
def textCells (x : ℕ) : ℕ := if x ≤ 123 then (123 - x) / 6 + 1 else 0

theorem textCells_zero : textCells 0 = oledTextCells := rfl

/-- They end inside the page. -/
theorem textCell_fits {x k : ℕ} (h : k < textCells x) :
    x + k * cellWidth + glyphWidth ≤ oledWidth := by
  unfold textCells at h
  split_ifs at h
  · simp only [cellWidth, glyphWidth, oledWidth]
    omega
  · exact absurd h (Nat.not_lt_zero k)

/-- One cell is left where a character fits. -/
theorem textCells_succ {x : ℕ} (h : x + glyphWidth ≤ oledWidth) :
    textCells x = textCells (x + cellWidth) + 1 := by
  have hx : x ≤ 123 := Nat.le_of_add_le_add_right h
  have hcell : cellWidth = 6 := rfl
  by_cases hnext : x + cellWidth ≤ 123
  · rw [textCells, textCells, if_pos hx, if_pos hnext]
    omega
  · rw [textCells, textCells, if_pos hx, if_neg hnext]
    omega

theorem textCells_of_gt {x : ℕ} (h : x + glyphWidth > oledWidth) : textCells x = 0 := by
  simp only [glyphWidth, oledWidth] at h
  exact if_neg (by omega)

/-- The column does not wrap as long as characters fit. -/
theorem next_column {x : ℕ} (h : x + glyphWidth ≤ oledWidth) :
    (x + glyphWidth + 1) % 256 = x + cellWidth := by
  simp only [cellWidth, glyphWidth, oledWidth] at *
  omega

/-- A column from `x` on is in the first cell, or in a cell of the text that starts one further. -/
theorem column_cases {x c : ℕ} (h : x ≤ c) :
    (c < x + cellWidth ∧ (c - x) / cellWidth = 0 ∧ (c - x) % cellWidth = c - x) ∨
      (x + cellWidth ≤ c ∧ (c - x) / cellWidth = (c - (x + cellWidth)) / cellWidth + 1 ∧
        (c - x) % cellWidth = (c - (x + cellWidth)) % cellWidth) := by
  rcases Nat.lt_or_ge c (x + cellWidth) with hlt | hge
  · exact Or.inl ⟨hlt, Nat.div_eq_of_lt (by omega), Nat.mod_eq_of_lt (by omega)⟩
  · have hsub : c - x = c - (x + cellWidth) + cellWidth := by omega
    have hpos : 0 < cellWidth := by decide
    rw [hsub, Nat.add_div_right _ hpos, Nat.add_mod_right]
    exact Or.inr ⟨hge, rfl, rfl⟩

/-- **What the loop of `oled_draw_text` does to each byte**, from any column. -/
theorem oledDrawTextFrom_apply {page : ℕ} (hpage : page < oledPages)
    (i : Fin (oledWidth * oledPages)) (text : List UInt8) (x : ℕ) (buffer : Frame) :
    oledDrawTextFrom x page text buffer i =
      (if (i : ℕ) / oledWidth = page ∧ x ≤ (i : ℕ) % oledWidth ∧
          ((i : ℕ) % oledWidth - x) / cellWidth < textCells x then
        glyphByte (text.getD (((i : ℕ) % oledWidth - x) / cellWidth) 0)
          (((i : ℕ) % oledWidth - x) % cellWidth)
      else none).getD (buffer i) := by
  induction text generalizing x buffer with
  | nil => simp [oledDrawTextFrom]
  | cons character rest ih =>
    rw [oledDrawTextFrom]
    by_cases hx : x + glyphWidth > oledWidth
    · -- the text is cut here, and no cell is left
      have hskip : ∀ glyph, oledDrawChar x page glyph buffer = buffer :=
        fun glyph => dif_pos (Or.inr hx)
      have hnone : ¬ ((i : ℕ) / oledWidth = page ∧ x ≤ (i : ℕ) % oledWidth ∧
          ((i : ℕ) % oledWidth - x) / cellWidth < textCells x) := by
        rw [textCells_of_gt hx]
        exact fun h => Nat.not_lt_zero _ h.2.2
      simp only [if_pos hx, hskip, if_neg hnone]
      cases fontGetGlyph character <;> rfl
    · have hfits := Nat.le_of_not_lt hx
      simp only [if_neg hx, next_column hfits]
      rw [ih, drawCell_apply _ _ hpage hfits, textCells_succ hfits]
      by_cases hrow : (i : ℕ) / oledWidth = page ∧ x ≤ (i : ℕ) % oledWidth
      · obtain ⟨hrow, hle⟩ := hrow
        rcases column_cases hle with ⟨hlt, hcell, hcolumn⟩ | ⟨hge, hcell, hcolumn⟩
        · simp [hrow, hle, Nat.not_le.mpr hlt, hcell, hcolumn]
        · have hwide : ¬ (i : ℕ) % oledWidth - x < glyphWidth := by
            simp only [cellWidth, glyphWidth] at *
            omega
          simp [hrow, hle, hge, hcell, hcolumn, glyphByte, hwide]
      · have hnone : ¬ ((i : ℕ) / oledWidth = page ∧ x + cellWidth ≤ (i : ℕ) % oledWidth ∧
            ((i : ℕ) % oledWidth - (x + cellWidth)) / cellWidth < textCells (x + cellWidth)) :=
          fun h => hrow ⟨h.1, by omega⟩
        have hnone' : ¬ ((i : ℕ) / oledWidth = page ∧ x ≤ (i : ℕ) % oledWidth ∧
            ((i : ℕ) % oledWidth - x) / cellWidth < textCells (x + cellWidth) + 1) :=
          fun h => hrow ⟨h.1, h.2.1⟩
        rw [if_neg hrow, if_neg hnone, if_neg hnone']
        rfl

/-- **`oled_draw_text` draws the text on its page and touches no other.** -/
theorem oledDrawText_apply {page : ℕ} (hpage : page < oledPages) (text : CString) (buffer : Frame)
    (i : Fin (oledWidth * oledPages)) :
    oledDrawText 0 page text buffer i =
      (if (i : ℕ) / oledWidth = page then drawnByte text ((i : ℕ) % oledWidth) else none).getD
        (buffer i) := by
  rw [oledDrawText, oledDrawTextFrom_apply hpage]
  simp only [drawnByte, cell_fits, Nat.zero_le, true_and, Nat.sub_zero, CString.charAt,
    textCells_zero]
  by_cases hrow : (i : ℕ) / oledWidth = page
  · simp only [hrow, true_and, if_true]
  · simp only [hrow, false_and, if_false]

end PresenceDevice
