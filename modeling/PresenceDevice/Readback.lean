import PresenceDevice.DevicePanel
import PresenceDevice.PresencePaging

/-!
# Reading the display

What a reader makes of the display, from nothing but the pixels: each cell of six columns is taken
for the character whose glyph is in it. Lowercase letters come back as uppercase, and everything
the font does not have comes back as a space; nothing else is lost. A reader who pages through a
message reads its body.

## Main definitions

* `displayed`: what is left of a character on the display
* `readGlyph`, `readRow`, `readBody`: reading a cell, a row, and the body rows of a page
* `visibleText`: the characters of a text that are not blank on the display

## Main results

* `readGlyph_of_glyph`: no two characters look the same
* `readRow_screen`: reading a row of a page gives its text
* `readBody_pages`: reading all pages gives the visible text of the body
-/

namespace PresenceDevice

/-- What a reader sees of a character: the letter in uppercase, or a space where the font has
nothing to show. -/
def displayed (character : UInt8) : UInt8 :=
  if 'a'.toUInt8 ≤ character ∧ character ≤ 'z'.toUInt8 then character - 32
  else if (fontGetGlyph character).isSome then character
  else ' '.toUInt8

/-- The characters that have a glyph of their own. -/
def fontCharacters : List UInt8 :=
  (CString.ofString "ABCDEFGHIJKLMNOPQRSTUVWXYZ0123456789 :-./").bytes

/-- The character that has this glyph. -/
def readGlyph (glyph : Glyph) : UInt8 :=
  (fontCharacters.find? fun character => fontGetGlyph character = some glyph).getD ' '.toUInt8

theorem cell_index_lt (cell : Fin oledTextCells) (column : Fin glyphWidth) :
    (cell : ℕ) * cellWidth + column < oledWidth := by
  have hfits := cell_fits.mpr cell.isLt
  have hcolumn := column.isLt
  omega

/-- The pixels of a cell. -/
def Frame.cell (frame : Frame) (page : Fin oledPages) (cell : Fin oledTextCells) : Glyph :=
  fun column => frame.column page ⟨cell * cellWidth + column, cell_index_lt cell column⟩

/-- A row of the display, read cell by cell. -/
def readRow (frame : Frame) (page : Fin oledPages) : List UInt8 :=
  (List.finRange oledTextCells).map fun cell => readGlyph (frame.cell page cell)

/-- The body rows of the display. -/
def readBody (frame : Frame) : List UInt8 :=
  (List.finRange presenceBodyLinesPerPage).flatMap fun index => readRow frame (bodyPage index)

/-- The characters of a text that can be seen, as they are seen. -/
def visibleText (text : List UInt8) : List UInt8 :=
  (text.map displayed).filter (· ≠ ' '.toUInt8)

/-! ### The font can be read -/

/-- No two characters look the same. -/
theorem fontGetGlyph_injective : ∀ c ∈ fontCharacters, ∀ d ∈ fontCharacters,
    fontGetGlyph c = fontGetGlyph d → c = d := by
  decide +kernel

theorem displayed_mem (character : UInt8) (h : (fontGetGlyph character).isSome) :
    displayed character ∈ fontCharacters ∧
      fontGetGlyph (displayed character) = fontGetGlyph character := by
  have hall : ∀ n < 256, (fontGetGlyph (UInt8.ofNat n)).isSome →
      displayed (UInt8.ofNat n) ∈ fontCharacters ∧
        fontGetGlyph (displayed (UInt8.ofNat n)) = fontGetGlyph (UInt8.ofNat n) := by
    decide +kernel
  have hcharacter := hall character.toNat character.toNat_lt
  rw [UInt8.ofNat_toNat] at hcharacter
  exact hcharacter h

/-- A character without a glyph is a blank to the reader. -/
theorem displayed_of_none {character : UInt8} (h : fontGetGlyph character = none) :
    displayed character = ' '.toUInt8 := by
  have hall : ∀ n < 256, 'a'.toUInt8 ≤ UInt8.ofNat n ∧ UInt8.ofNat n ≤ 'z'.toUInt8 →
      (fontGetGlyph (UInt8.ofNat n)).isSome := by
    decide +kernel
  have hletter := hall character.toNat character.toNat_lt
  rw [UInt8.ofNat_toNat] at hletter
  rw [displayed, if_neg fun hlower => ?_, h]
  · rfl
  · have hsome := hletter hlower
    rw [h] at hsome
    cases hsome

/-- **A glyph is read as the character it was drawn for.** -/
theorem readGlyph_of_glyph {character : UInt8} {glyph : Glyph}
    (h : fontGetGlyph character = some glyph) : readGlyph glyph = displayed character := by
  obtain ⟨hmem, hsame⟩ := displayed_mem character (by rw [h]; rfl)
  have hfound : (fontCharacters.find? fun c => fontGetGlyph c = some glyph).isSome := by
    rw [List.find?_isSome]
    exact ⟨displayed character, hmem, by rw [hsame, h]; exact decide_eq_true rfl⟩
  obtain ⟨c, hc⟩ := Option.isSome_iff_exists.mp hfound
  have hglyph : fontGetGlyph c = some glyph := by simpa using List.find?_some hc
  rw [readGlyph, hc, Option.getD_some]
  refine fontGetGlyph_injective c (List.mem_of_find?_eq_some hc) _ hmem ?_
  rw [hglyph, hsame, h]

theorem readGlyph_blank : readGlyph (fun _ => 0) = ' '.toUInt8 := by decide +kernel

/-! ### Rows -/

variable {m : AgentMessage} {frame : Frame} {page : Fin oledPages} {text : CString}

/-- What a reader sees of a text on a row. -/
def rowText (text : CString) : List UInt8 :=
  (List.range oledTextCells).map fun cell => displayed (text.charAt cell)

theorem renderText_cell (text : CString) (cell : Fin oledTextCells) (column : Fin glyphWidth) :
    renderText text (cell * cellWidth + column) =
      ((fontGetGlyph (text.charAt cell)).map (· column)).getD 0 := by
  have hcolumn : (column : ℕ) < cellWidth := Nat.lt_succ_of_lt column.isLt
  have hdiv : ((cell : ℕ) * cellWidth + column) / cellWidth = cell := by
    rw [Nat.mul_comm, Nat.mul_add_div (by decide), Nat.div_eq_of_lt hcolumn, Nat.add_zero]
  have hmod : ((cell : ℕ) * cellWidth + column) % cellWidth = column := by
    rw [Nat.mul_comm, Nat.mul_add_mod, Nat.mod_eq_of_lt hcolumn]
  rw [renderText, drawnByte, hdiv, hmod, if_pos (cell_fits.mpr cell.isLt), glyphByte,
    dif_pos column.isLt]

/-- **A row with a text on it is read as that text.** -/
theorem readRow_of_renderText (h : ∀ column, frame.column page column = renderText text column) :
    readRow frame page = rowText text := by
  have hcell : ∀ cell, readGlyph (frame.cell page cell) = displayed (text.charAt cell) := by
    intro cell
    have hpixels : frame.cell page cell =
        fun column => ((fontGetGlyph (text.charAt cell)).map (· column)).getD 0 := by
      funext column
      rw [Frame.cell, h]
      exact renderText_cell text cell column
    rw [hpixels]
    cases hglyph : fontGetGlyph (text.charAt cell) with
    | none => exact readGlyph_blank.trans (displayed_of_none hglyph).symm
    | some glyph => exact readGlyph_of_glyph hglyph
  rw [readRow, rowText, ← List.map_coe_finRange_eq_range, List.map_map]
  exact List.map_congr_left fun cell _ => hcell cell

/-- Behind a text that fits, a row is blank. -/
theorem rowText_eq (h : text.strlen ≤ oledTextCells) :
    rowText text = text.bytes.map displayed ++
      List.replicate (oledTextCells - text.strlen) ' '.toUInt8 := by
  have hlength : text.bytes.length = text.strlen := rfl
  apply List.ext_getElem
  · simp only [rowText, List.length_map, List.length_range, List.length_append,
      List.length_replicate, hlength]
    omega
  · intro i h1 h2
    rw [List.getElem_append]
    simp only [rowText, List.getElem_map, List.getElem_range, List.getElem_replicate,
      List.length_map]
    split_ifs with hi
    · rw [CString.charAt_eq_getElem hi]
      rfl
    · rw [CString.charAt_of_le (Nat.le_of_not_lt hi)]
      exact displayed_of_none fontGetGlyph_zero

theorem filter_rowText (h : text.strlen ≤ oledTextCells) :
    (rowText text).filter (· ≠ ' '.toUInt8) = visibleText text.bytes := by
  rw [rowText_eq h, List.filter_append, visibleText]
  simp

/-! ### Pages -/

theorem screen_row (m : AgentMessage) (page : ℕ) (row : Fin oledPages) (column : Fin oledWidth) :
    (screen m page).column row column = renderText (screenRow m page row) column := by
  simp only [Frame.column, screen, index_div, index_mod]

/-- **A page is read as its texts.** -/
theorem readRow_screen (m : AgentMessage) (page : ℕ) (row : Fin oledPages) :
    readRow (screen m page) row = rowText (screenRow m page row) :=
  readRow_of_renderText (screen_row m page row)

theorem pageLine_strlen_le (m : AgentMessage) (page index : ℕ) :
    (pageLine m page index).strlen ≤ oledTextCells := by
  rw [pageLine]
  cases hline : m.lines[page * presenceBodyLinesPerPage + index]? with
  | none => exact Nat.zero_le _
  | some l =>
    have hwidth := (m.laidOut_lines.goodLine l (List.mem_of_getElem? hline)).width
    refine Nat.le_trans ?_ hwidth
    show (Tiling.slice m.storedBody.bytes l.start (l.start + l.length)).length ≤ l.length
    rw [Tiling.slice, Nat.add_sub_cancel_left]
    exact List.length_take_le _ _

theorem pageLine_bytes (m : AgentMessage) (page index : ℕ) :
    (pageLine m page index).bytes =
      (m.lines[page * presenceBodyLinesPerPage + index]?).elim [] (lineText m.storedBody) := by
  rw [pageLine]
  cases m.lines[page * presenceBodyLinesPerPage + index]? <;> rfl

theorem visibleText_flatMap {α : Type*} (l : List α) (f : α → List UInt8) :
    visibleText (l.flatMap f) = l.flatMap fun a => visibleText (f a) := by
  simp only [visibleText, List.map_flatMap, List.filter_flatMap]

theorem flatMap_elim_getElem? {α β : Type*} (l : List α) (f : α → List β) (n : ℕ) :
    (List.range n).flatMap (fun i => (l[i]?).elim [] f) = (l.take n).flatMap f := by
  induction n with
  | zero => simp
  | succ n ih =>
    rw [List.range_succ, List.flatMap_append, ih, List.take_add_one, List.flatMap_append,
      List.flatMap_singleton]
    cases l[n]? <;> simp

/-- **The body rows of a page are read as its lines**, up to blanks. -/
theorem filter_readBody (m : AgentMessage) (page : ℕ) :
    (readBody (screen m page)).filter (· ≠ ' '.toUInt8) =
      visibleText ((pageLines m page).flatMap (lineText m.storedBody)) := by
  have hrow : ∀ index : Fin presenceBodyLinesPerPage,
      (readRow (screen m page) (bodyPage index)).filter (· ≠ ' '.toUInt8) =
        visibleText (((m.lines.drop (page * presenceBodyLinesPerPage))[(index : ℕ)]?).elim []
          (lineText m.storedBody)) := by
    intro index
    rw [readRow_of_renderText (screen_column m page index),
      filter_rowText (pageLine_strlen_le m page index), pageLine_bytes, List.getElem?_drop]
  rw [readBody, List.filter_flatMap, pageLines, ← flatMap_elim_getElem?, visibleText_flatMap,
    ← List.map_coe_finRange_eq_range, List.flatMap_map]
  exact List.flatMap_congr fun index _ => hrow index

/-- What the layout drops cannot be seen. -/
theorem visibleText_lines (m : AgentMessage) :
    visibleText (m.lines.flatMap (lineText m.storedBody)) = visibleText m.storedBody.bytes := by
  have hgap : ∀ text, visibleText (text.filter (¬ IsGap ·)) = visibleText text := by
    intro text
    simp only [visibleText, List.filter_map, List.filter_filter]
    congr 1
    refine List.filter_congr fun c _ => ?_
    by_cases hc : IsGap c
    · have hblank : displayed c = ' '.toUInt8 := by
        rcases hc with (rfl | rfl) | rfl <;> decide
      simp [hc, hblank]
    · simp [hc]
  rw [← hgap, m.laidOut_lines.partition.in_order, hgap]

/-! ### Paging -/

/-- What a reader makes of a message, one page after the other. -/
structure ReadInFull (m : AgentMessage) (frame : ℕ → Frame) : Prop where
  /-- Each row is its text, cut to nothing and confused with nothing. -/
  rows : ∀ k (row : Fin oledPages),
    readRow (frame k) row = rowText (screenRow m (min k (m.pageCount - 1)) row)
  /-- All pages together are the body. -/
  body : ((List.range m.pageCount).flatMap fun k => readBody (frame k)).filter
    (· ≠ ' '.toUInt8) = visibleText m.storedBody.bytes

/-- The pages of a message, read one after the other. -/
theorem readInFull_screen (m : AgentMessage) :
    ReadInFull m fun k => screen m (min k (m.pageCount - 1)) where
  rows k row := readRow_screen m _ row
  body := by
    have hpage : ∀ k ∈ List.range m.pageCount,
        (readBody (screen m (min k (m.pageCount - 1)))).filter (· ≠ ' '.toUInt8) =
          visibleText ((pageLines m k).flatMap (lineText m.storedBody)) := by
      intro k hk
      have hlt := List.mem_range.mp hk
      rw [Nat.min_eq_left (by omega)]
      exact filter_readBody m k
    rw [List.filter_flatMap, List.flatMap_congr hpage, ← visibleText_lines,
      ← visibleText_flatMap, ← List.flatMap_assoc, flatMap_pageLines,
      List.take_of_length_le (length_lines_le_pages m)]

section

variable (pdMsToTicks : ℕ → TickType) (oled : Oled) (calls : List (TickType × PresenceCall))
  (shownAt : TickType) (m : AgentMessage) (pressedAt : ℕ → TickType)

/-- The panel keeps up with the presses. -/
theorem paged_synced (k : ℕ) :
    (paged pdMsToTicks oled calls shownAt m pressedAt k).oled.Synced := by
  induction k with
  | zero =>
    rw [paged_zero]
    exact (presenceShowMessage_settled (presenceRun_represents pdMsToTicks oled calls) m).2
  | succ k ih =>
    obtain ⟨hrep, hdisplays, -⟩ := paged_spec pdMsToTicks oled calls shownAt m pressedAt k
    rw [paged_succ]
    exact (presenceCall_settled hrep hdisplays ih pdMsToTicks (pressedAt k) .nextPage).2

/-- **A reader who pages through a message reads it off the panel**: source and title, every line,
and all visible characters of the body in their order. -/
theorem paged_readInFull :
    ReadInFull m fun k =>
      glass (paged pdMsToTicks oled calls shownAt m pressedAt k).oled.panel := by
  have hglass : ∀ k, glass (paged pdMsToTicks oled calls shownAt m pressedAt k).oled.panel =
      screen m (min k (m.pageCount - 1)) := by
    intro k
    obtain ⟨-, hdisplays, hstate, hpage⟩ := paged_spec pdMsToTicks oled calls shownAt m pressedAt k
    obtain ⟨m', hm', -, heq⟩ := hdisplays.shown hstate
    rw [glassShows_iff.mp (paged_synced pdMsToTicks oled calls shownAt m pressedAt k), heq, hpage,
      Option.some.inj hm']
  simp only [hglass]
  exact readInFull_screen m

end

end PresenceDevice
