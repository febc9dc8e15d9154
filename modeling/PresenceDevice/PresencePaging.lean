import PresenceDevice.PresenceScreen

/-!
# Paging through a message

Three lines make a page, and a press turns to the next page until the last one. Followed from the
moment a message is shown, the pages are the message's lines, in order and in full, and each byte
of the body that can be seen has one place on one page.

## Main definitions

* `pageLines`: the lines of a page
* `CellShows`: the byte of the body behind a character cell
* `PagesInFull`: what a reader sees who pages through a message

## Main results

* `presenceRun_paging`: paging shows a message in full
-/

namespace PresenceDevice

variable {latest : Option AgentMessage} {p : Presence} {m : AgentMessage}

/-- A byte of the framebuffer, by page and column of the display. -/
def Frame.column (frame : Frame) (page : Fin oledPages) (column : Fin oledWidth) : UInt8 :=
  frame ⟨page * oledWidth + column, page_index_lt page column⟩

/-- The display page of a body row. -/
def bodyPage (index : Fin presenceBodyLinesPerPage) : Fin oledPages :=
  ⟨4 + index, by
    have h : (index : ℕ) < 3 := index.isLt
    exact show 4 + (index : ℕ) < 8 by omega⟩

/-- The lines of a page. -/
def pageLines (m : AgentMessage) (page : ℕ) : List PresenceLine :=
  (m.lines.drop (page * presenceBodyLinesPerPage)).take presenceBodyLinesPerPage

/-- On a page, the cell `cell` of body row `index` belongs to byte `offset` of the stored body. -/
def CellShows (m : AgentMessage) (page : ℕ) (index : Fin presenceBodyLinesPerPage) (cell : ℕ)
    (offset : ℕ) : Prop :=
  ∃ l, m.lines[page * presenceBodyLinesPerPage + index]? = some l ∧ cell < l.length ∧
    l.start + cell = offset

/-- What is on the display after `k` presses, for every `k`. -/
structure PagesInFull (m : AgentMessage) (frame : ℕ → Frame) : Prop where
  /-- The body rows show the lines of the page, and blanks behind the last line. -/
  rows : ∀ k (index : Fin presenceBodyLinesPerPage) (column : Fin oledWidth),
    (frame k).column (bodyPage index) column =
      renderText (pageLine m (min k (m.pageCount - 1)) index) column
  /-- The pages are the lines, in order. -/
  in_order : (List.range m.pageCount).flatMap (pageLines m) = m.lines
  /-- Each line is on one page only. -/
  one_page : ∀ i < m.lines.length,
    ∃! slot : Fin m.pageCount × Fin presenceBodyLinesPerPage,
      (slot.1 : ℕ) * presenceBodyLinesPerPage + slot.2 = i
  /-- Every character of a line has a cell of its own on the row. -/
  in_full : ∀ l ∈ m.lines, ∀ n < l.length, n * cellWidth + glyphWidth ≤ oledWidth
  /-- The cell of a byte shows the byte. -/
  cell : ∀ {page index cell offset}, CellShows m page index cell offset →
    ∀ k, min k (m.pageCount - 1) = page → ∀ (column : Fin glyphWidth) (place : Fin oledWidth),
      (place : ℕ) = cell * cellWidth + column →
        (frame k).column (bodyPage index) place =
          (glyphByte (m.storedBody.charAt offset) column).getD 0
  /-- Every byte that is not a space, a tab or a newline has one cell on one page. -/
  one_cell : ∀ i < m.storedBody.strlen, ¬ IsGap (m.storedBody.charAt i) →
    ∃! place : Fin m.pageCount × Fin presenceBodyLinesPerPage × Fin oledTextCells,
      CellShows m place.1 place.2.1 place.2.2 i
  /-- The last page stays. -/
  stays : ∀ k, m.pageCount - 1 ≤ k → frame k = frame (m.pageCount - 1)

/-! ### Lines and pages -/

theorem flatMap_pageLines (m : AgentMessage) (count : ℕ) :
    (List.range count).flatMap (pageLines m) =
      m.lines.take (count * presenceBodyLinesPerPage) := by
  induction count with
  | zero => simp
  | succ count ih =>
    rw [List.range_succ, List.flatMap_append, ih, Nat.succ_mul, List.take_add,
      List.flatMap_singleton]
    rfl

theorem length_lines_le_pages (m : AgentMessage) :
    m.lines.length ≤ m.pageCount * presenceBodyLinesPerPage := by
  rw [m.pageCount_eq]
  simp only [presenceBodyLinesPerPage]
  omega

theorem existsUnique_slot {i : ℕ} (hi : i < m.lines.length) :
    ∃! slot : Fin m.pageCount × Fin presenceBodyLinesPerPage,
      (slot.1 : ℕ) * presenceBodyLinesPerPage + slot.2 = i := by
  refine ⟨(⟨i / presenceBodyLinesPerPage, m.div_lt_pageCount hi⟩,
    ⟨i % presenceBodyLinesPerPage, Nat.mod_lt _ (by decide)⟩), Nat.div_add_mod' _ _, ?_⟩
  rintro ⟨page, index⟩ hslot
  have hindex := index.isLt
  simp only [presenceBodyLinesPerPage] at hslot hindex
  refine Prod.ext (Fin.ext ?_) (Fin.ext ?_)
  · show (page : ℕ) = i / 3
    omega
  · show (index : ℕ) = i % 3
    omega

/-- A visible byte of the body belongs to one line, and so to one cell. -/
theorem existsUnique_cell {i : ℕ} (hi : i < m.storedBody.strlen)
    (hgap : ¬ IsGap (m.storedBody.charAt i)) :
    ∃! place : Fin m.pageCount × Fin presenceBodyLinesPerPage × Fin oledTextCells,
      CellShows m place.1 place.2.1 place.2.2 i := by
  have hpart := m.laidOut_lines.partition
  obtain ⟨k, ⟨hstart, hend⟩, hline⟩ := hpart.one_line i hi hgap
  obtain ⟨⟨page, index⟩, hslot, huniq⟩ := existsUnique_slot (m := m) k.isLt
  have hget : m.lines[(page : ℕ) * presenceBodyLinesPerPage + index]? = some m.lines[k] := by
    rw [hslot]
    exact List.getElem?_eq_getElem k.isLt
  have hwidth := hpart.width _ (List.getElem_mem k.isLt)
  have hcell : i - m.lines[k].start < oledTextCells := by
    simp only [presenceLineChars] at hwidth
    simp only [oledTextCells, Fin.getElem_fin] at *
    omega
  refine ⟨(page, index, ⟨i - m.lines[k].start, hcell⟩), ⟨m.lines[k], hget, ?_, ?_⟩, ?_⟩
  · show i - m.lines[k].start < m.lines[k].length
    omega
  · show m.lines[k].start + (i - m.lines[k].start) = i
    omega
  · rintro ⟨page', index', cell'⟩ ⟨l, hl, hlt, heq⟩
    obtain ⟨hk', hl⟩ := List.getElem?_eq_some_iff.mp hl
    -- the other cell is on the same line
    have hsame := hline ⟨_, hk'⟩ (by simp only [Fin.getElem_fin, hl]; omega)
    have hindex : (page' : ℕ) * presenceBodyLinesPerPage + index' = k := congrArg Fin.val hsame
    have hplace := huniq (page', index') hindex
    have hpair := Prod.mk.inj hplace
    have hval : l = m.lines[k] := by
      rw [← hl]
      simp only [Fin.getElem_fin, hindex]
    refine Prod.ext hpair.1 (Prod.ext hpair.2 (Fin.ext ?_))
    show (cell' : ℕ) = i - m.lines[k].start
    rw [← hval]
    exact (Nat.sub_eq_of_eq_add' heq.symm).symm

/-! ### The body rows of a screen -/

theorem screen_column (m : AgentMessage) (page : ℕ) (index : Fin presenceBodyLinesPerPage)
    (column : Fin oledWidth) :
    Frame.column (screen m page) (bodyPage index) column
      = renderText (pageLine m page index) column := by
  have hcolumn : (column : ℕ) < 128 := column.isLt
  have hrow : ((bodyPage index : ℕ) * oledWidth + column) / oledWidth = 4 + index := by
    simp only [oledWidth, bodyPage]
    omega
  have hmod : ((bodyPage index : ℕ) * oledWidth + column) % oledWidth = column := by
    simp only [oledWidth, bodyPage]
    omega
  have htext : screenRow m page (4 + index) = pageLine m page index := by
    obtain ⟨_ | _ | _ | n, hindex⟩ := index
    · rfl
    · rfl
    · rfl
    · exact absurd hindex (Nat.not_lt.mpr (Nat.le_add_left 3 n))
  rw [Frame.column, screen]
  simp only [hrow, hmod, htext]

/-- A cell shows its byte. -/
theorem renderText_of_cellShows {page cell offset : ℕ} {index : Fin presenceBodyLinesPerPage}
    (h : CellShows m page index cell offset) (column : Fin glyphWidth) :
    renderText (pageLine m page index) (cell * cellWidth + column) =
      (glyphByte (m.storedBody.charAt offset) column).getD 0 := by
  obtain ⟨l, hl, hlt, rfl⟩ := h
  have hmem := List.mem_of_getElem? hl
  have hin := m.laidOut_lines.inside l hmem
  have hwidth := (m.laidOut_lines.goodLine l hmem).width
  have hcolumn : (column : ℕ) < 5 := column.isLt
  have hdiv : (cell * cellWidth + column) / cellWidth = cell := by
    simp only [cellWidth, glyphWidth]
    omega
  have hmod : (cell * cellWidth + column) % cellWidth = column := by
    simp only [cellWidth, glyphWidth]
    omega
  have hchar : (lineString m.storedBody l).charAt cell = m.storedBody.charAt (l.start + cell) := by
    have hget : (lineText m.storedBody l)[cell]? = m.storedBody.bytes[l.start + cell]? :=
      Tiling.getElem?_slice (by omega)
    simp only [CString.charAt, List.getD_eq_getElem?_getD, lineString, hget]
  have hfits : cell < oledTextCells := by
    simp only [presenceLineChars] at hwidth
    simp only [oledTextCells]
    omega
  rw [renderText, drawnByte, hdiv, hmod, if_pos (cell_fits.mpr hfits), pageLine, hl,
    Option.elim_some, hchar]

/-! ### Pressing the button -/

/-- The module when, after any run, a message has been shown and the button pressed `k` times. -/
def paged (pdMsToTicks : ℕ → TickType) (oled : Oled) (calls : List (TickType × PresenceCall))
    (shownAt : TickType) (m : AgentMessage) (pressedAt : ℕ → TickType) (k : ℕ) : Presence :=
  presenceRun pdMsToTicks oled (calls ++ (shownAt, .showMessage (some m)) ::
    (List.range k).map fun i => (pressedAt i, .nextPage))

section

variable (pdMsToTicks : ℕ → TickType) (oled : Oled) (calls : List (TickType × PresenceCall))
  (shownAt : TickType) (m : AgentMessage) (pressedAt : ℕ → TickType)

theorem paged_zero : paged pdMsToTicks oled calls shownAt m pressedAt 0 =
    presenceShowMessage (some m) (presenceRun pdMsToTicks oled calls) := by
  rw [paged, presenceRun, Machine.run_append]
  rfl

theorem paged_succ (k : ℕ) : paged pdMsToTicks oled calls shownAt m pressedAt (k + 1) =
    presenceNextPage pdMsToTicks (pressedAt k)
      (paged pdMsToTicks oled calls shownAt m pressedAt k) := by
  rw [paged, paged, presenceRun, presenceRun, List.range_succ, List.map_append, ← List.cons_append,
    ← List.append_assoc, Machine.run_append]
  rfl

/-- After `k` presses the page is the `k`-th, or the last. -/
theorem paged_spec (k : ℕ) :
    let p := paged pdMsToTicks oled calls shownAt m pressedAt k
    Represents (some m) p ∧ Displays (some m) p ∧ p.presenceState.state ≠ .idle ∧
      p.presenceState.currentPage = min k (m.pageCount - 1) := by
  induction k with
  | zero =>
    have h := presenceRun_represents pdMsToTicks oled calls
    rw [paged_zero, presenceShowMessage_some h, Nat.zero_min]
    have hstored := storeMessage_represents h m
    exact ⟨hstored.drawn, hstored.displays_drawn PresenceState.noConfusion,
      PresenceState.noConfusion, rfl⟩
  | succ k ih =>
    obtain ⟨h, -, hstate, hpage⟩ := ih
    rw [paged_succ, presenceNextPage_of_ne_idle h _ _ hstate]
    have hturned := turnPage_represents h pdMsToTicks (pressedAt k) hstate
    refine ⟨hturned.drawn, hturned.displays_drawn PresenceState.noConfusion,
      PresenceState.noConfusion, ?_⟩
    show min _ _ = _
    rw [hpage, (h.holds m rfl).page_count]
    omega

/-- **Paging shows a message in full**, after any run and at any times. -/
theorem presenceRun_paging :
    PagesInFull m (fun k => (paged pdMsToTicks oled calls shownAt m pressedAt k).oled.oledBuffer) ∧
      ∀ k, (paged pdMsToTicks oled calls shownAt m pressedAt k).oled.flushed =
        some (paged pdMsToTicks oled calls shownAt m pressedAt k).oled.oledBuffer := by
  have hspec := paged_spec pdMsToTicks oled calls shownAt m pressedAt
  have hframe : ∀ k, (paged pdMsToTicks oled calls shownAt m pressedAt k).oled.oledBuffer =
      screen m (min k (m.pageCount - 1)) := by
    intro k
    obtain ⟨-, hdisplays, hstate, hpage⟩ := hspec k
    obtain ⟨m', hm', -, heq⟩ := hdisplays.shown hstate
    rw [heq, hpage, Option.some.inj hm']
  refine ⟨?_, fun k => (hspec k).2.1.flushed⟩
  constructor
  case rows =>
    intro k index column
    simp only [hframe]
    exact screen_column m _ index column
  case in_order =>
    rw [flatMap_pageLines, List.take_of_length_le (length_lines_le_pages m)]
  case one_page => exact fun i hi => existsUnique_slot hi
  case in_full =>
    intro l hl n hn
    have hwidth := (m.laidOut_lines.goodLine l hl).width
    exact cell_fits.mpr (Nat.lt_of_lt_of_le hn hwidth)
  case cell =>
    intro page index cell offset h k hk column place hplace
    simp only [hframe]
    rw [screen_column, hk, hplace]
    exact renderText_of_cellShows h column
  case one_cell => exact fun i hi hgap => existsUnique_cell hi hgap
  case stays =>
    intro k hk
    simp only [hframe]
    rw [Nat.min_eq_right hk, Nat.min_self]

end

end PresenceDevice
