import PresenceDevice.Oled

/-!
# The panel shows the framebuffer

`oled_flush` sends eight pages, each behind three commands that set the page and both nibbles of
the column. So neither the address nor the D/C line that an earlier transfer left behind matters:
every page goes to its own row of the RAM, two columns from the left.

## Main definitions

* `PanelShows`: the visible area of the RAM is a framebuffer, the rest is as it was

## Main results

* `oledWritePage_ram`: what the transfer of a page writes
* `oledFlush_shows`: after `oled_flush` the panel shows the framebuffer
-/

namespace PresenceDevice

variable {panel : Sh1106} {buffer : Frame}

/-- The first visible column of the RAM. -/
def sh1106Offset : ℕ := 2

/-- The visible area of the panel is the framebuffer, and everything else in its RAM is unchanged,
the two columns on either side included. -/
structure PanelShows (oledBuffer : Frame) (before after : Sh1106) : Prop where
  shown : ∀ (page : Fin oledPages) (column : Fin oledWidth),
    after.ram page (column + sh1106Offset) =
      oledBuffer ⟨page * oledWidth + column, page_index_lt page column⟩
  kept : ∀ page column, oledPages ≤ page ∨ column < sh1106Offset ∨
    oledWidth + sh1106Offset ≤ column → after.ram page column = before.ram page column

/-! ### Data -/

/-- Data goes to the current page, from the current column on. -/
theorem transmit_ram (hdata : panel.dataLine = true) (data : List UInt8) (page column : ℕ) :
    (panel.transmit data).ram page column =
      if page = panel.page ∧ panel.column ≤ column ∧ column < panel.column + data.length then
        data.getD (column - panel.column) 0
      else panel.ram page column := by
  induction data generalizing panel with
  | nil =>
    rw [if_neg fun h => by simp only [List.length_nil] at h; omega]
    rfl
  | cons byte data ih =>
    have hreceive : panel.receive byte =
        { panel with
          ram := Function.update panel.ram panel.page
            (Function.update (panel.ram panel.page) panel.column byte)
          column := panel.column + 1 } := if_pos hdata
    have hfirst : panel.transmit (byte :: data) = (panel.receive byte).transmit data := rfl
    rw [hfirst, ih (by rw [hreceive]; exact hdata), hreceive]
    simp only [List.length_cons]
    by_cases hpage : page = panel.page
    · subst hpage
      rcases Nat.lt_trichotomy column panel.column with hlt | rfl | hgt
      · rw [if_neg (by omega), if_neg (by omega), Function.update_self,
          Function.update_of_ne hlt.ne]
      · rw [if_neg (by omega), if_pos (by omega), Function.update_self, Function.update_self,
          Nat.sub_self, List.getD_cons_zero]
      · by_cases hin : column < panel.column + (data.length + 1)
        · obtain ⟨k, rfl⟩ := Nat.exists_eq_add_of_lt hgt
          rw [if_pos (by omega), if_pos (by omega), ← List.getD_cons_succ (x := byte)]
          congr 1
          omega
        · rw [if_neg (by omega), if_neg (by omega), Function.update_self,
            Function.update_of_ne hgt.ne']
    · rw [if_neg (by tauto), if_neg (by tauto), Function.update_of_ne hpage]

/-! ### Commands -/

/-- Commands do not reach the RAM. -/
theorem receive_ram (hcommand : panel.dataLine = false) (byte : UInt8) :
    (panel.receive byte).ram = panel.ram := by
  rw [Sh1106.receive, if_neg (by rw [hcommand]; exact Bool.false_ne_true)]
  split_ifs <;> rfl

theorem oledSendCommand_ram (command : UInt8) (panel : Sh1106) :
    (oledSendCommand command panel).ram = panel.ram := by
  show (Sh1106.receive { panel with dataLine := false } command).ram = panel.ram
  rw [receive_ram rfl]

/-! ### A page -/

/-- The three commands set the address, whatever it was before. -/
theorem oledWritePage_eq {page : UInt8} (hpage : page.toNat < oledPages) (data : List UInt8) :
    oledWritePage page data panel =
      { panel with page := page.toNat, column := sh1106Offset, dataLine := true }.transmit
        data := by
  have hcommand : ∀ page : Fin 8, (0xB0 ||| UInt8.ofNat page) &&& 0xF0 = 0xB0 ∧
      ((0xB0 ||| UInt8.ofNat page) &&& 0x0F).toNat = page := by decide
  have hof : UInt8.ofNat page.toNat = page := UInt8.ofNat_toNat
  obtain ⟨hclass, hnumber⟩ := hcommand ⟨page.toNat, hpage⟩
  rw [hof] at hclass hnumber
  have hset : oledSendCommand (0xB0 ||| page) panel =
      { panel with page := page.toNat, dataLine := false } := by
    simp only [oledSendCommand, Sh1106.transmit, List.foldl_cons, List.foldl_nil, Sh1106.receive,
      hclass, hnumber]
    rfl
  have hlow : ∀ panel, oledSendCommand 0x02 panel =
      { panel with column := panel.column / 16 * 16 + 2, dataLine := false } := fun panel => rfl
  have hhigh : ∀ panel, oledSendCommand 0x10 panel =
      { panel with column := 0 * 16 + panel.column % 16, dataLine := false } := fun panel => rfl
  have hcolumn : 0 * 16 + (panel.column / 16 * 16 + 2) % 16 = sh1106Offset := by
    simp only [sh1106Offset]
    omega
  simp only [oledWritePage, hset, hlow, hhigh, hcolumn, oledSendData]

/-- **The transfer of a page writes that page** from the first visible column on, and nothing
else. -/
theorem oledWritePage_ram {page : UInt8} (hpage : page.toNat < oledPages) (data : List UInt8)
    (row column : ℕ) :
    (oledWritePage page data panel).ram row column =
      if row = page.toNat ∧ sh1106Offset ≤ column ∧ column < sh1106Offset + data.length then
        data.getD (column - sh1106Offset) 0
      else panel.ram row column := by
  rw [oledWritePage_eq hpage]
  exact transmit_ram rfl data row column

/-! ### All pages -/

theorem length_pageBytes (page : Fin oledPages) : (pageBytes buffer page).length = oledWidth := by
  rw [pageBytes, List.length_map, List.length_finRange]

theorem getD_pageBytes (page : Fin oledPages) (column : Fin oledWidth) :
    (pageBytes buffer page).getD column 0 =
      buffer ⟨page * oledWidth + column, page_index_lt page column⟩ := by
  rw [List.getD_eq_getElem _ _ (by rw [length_pageBytes]; exact column.isLt)]
  simp [pageBytes]

theorem toNat_page (page : Fin oledPages) : (UInt8.ofNat page).toNat = page := by
  rw [UInt8.toNat_ofNat']
  exact Nat.mod_eq_of_lt (page.isLt.trans (by decide))

/-- Pages may be sent in any order, and more than once. -/
theorem writePages_ram (pages : List (Fin oledPages)) (row column : ℕ) :
    (pages.foldl (fun panel (page : Fin oledPages) =>
        oledWritePage (UInt8.ofNat page) (pageBytes buffer page) panel) panel).ram row column =
      if h : (∃ page ∈ pages, (page : ℕ) = row) ∧ sh1106Offset ≤ column ∧
          column < sh1106Offset + oledWidth then
        buffer ⟨row * oledWidth + (column - sh1106Offset), by
          obtain ⟨⟨page, -, rfl⟩, h1, h2⟩ := h
          exact page_index_lt page ⟨column - sh1106Offset, by omega⟩⟩
      else panel.ram row column := by
  induction pages generalizing panel with
  | nil =>
    rw [dif_neg fun h => by simp at h]
    rfl
  | cons page pages ih =>
    rw [List.foldl_cons, ih, oledWritePage_ram (by rw [toNat_page]; exact page.isLt),
      toNat_page, length_pageBytes]
    have hcons : (∃ p ∈ page :: pages, (p : ℕ) = row) ↔
        (page : ℕ) = row ∨ ∃ p ∈ pages, (p : ℕ) = row := by simp
    by_cases hin : sh1106Offset ≤ column ∧ column < sh1106Offset + oledWidth
    · by_cases hrest : ∃ page ∈ pages, (page : ℕ) = row
      · rw [dif_pos ⟨hrest, hin⟩, dif_pos ⟨hcons.mpr (Or.inr hrest), hin⟩]
      · rw [dif_neg fun h => hrest h.1]
        by_cases hrow : (page : ℕ) = row
        · subst hrow
          rw [if_pos ⟨rfl, hin⟩, dif_pos ⟨⟨page, List.mem_cons_self .., rfl⟩, hin⟩]
          exact getD_pageBytes page ⟨column - sh1106Offset, by omega⟩
        · have hnone := hcons.not.mpr (not_or.mpr ⟨hrow, hrest⟩)
          rw [if_neg fun h => hrow h.1.symm, dif_neg fun h => hnone h.1]
    · rw [dif_neg fun h => hin h.2, if_neg fun h => hin h.2, dif_neg fun h => hin h.2]

/-- **After `oled_flush` the panel shows the framebuffer**, whatever its RAM, its address and the
D/C line were before. -/
theorem oledFlush_shows (oled : Oled) :
    PanelShows oled.oledBuffer oled.panel (oledFlush oled).panel := by
  constructor
  case shown =>
    intro page column
    have hcolumn := column.isLt
    rw [oledFlush, writePages_ram,
      dif_pos ⟨⟨page, List.mem_finRange page, rfl⟩, by omega, by omega⟩]
    congr 2
  case kept =>
    intro page column hout
    rw [oledFlush, writePages_ram, dif_neg]
    rintro ⟨⟨row, -, hrow⟩, h1, h2⟩
    have hlt := row.isLt
    omega

end PresenceDevice
