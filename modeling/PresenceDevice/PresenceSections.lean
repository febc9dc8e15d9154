import PresenceDevice.Library.Critical
import PresenceDevice.OledFlush
import PresenceDevice.PresenceRun

/-!
# The presence operations, statement by statement

`Presence` has the operations of `presence.c` as functions: what they do between taking the mutex
and giving it back. Here they are written as the source has them, one statement after the other
down to the single SPI transfers, with the tick counter read where the source reads it. Run without
interruption they have the effect of the functions.

In between, only one thing is visible from outside the program: the panel. It is rewritten byte by
byte, and only after the new frame is complete in the framebuffer. So at every moment it shows the
beginning of the new frame and the rest of the old one.

## Main definitions

* `presenceShowMessageSection`, `presenceNextPageSection`, `presenceAcknowledgeSection`,
  `presenceUpdateSection`: the operations between `xSemaphoreTake` and `xSemaphoreGive`
* `GlassShows`, `Blended`: the panel shows a frame; it is on the way from one frame to another

## Main results

* `exec_presenceShowMessageSection` and the like: the effect of an operation
* `throughout_oledFlushSection`: one frame replaces the other from the first byte to the last
* `presenceShowMessageSection_blended` and the like: nothing else shows during an operation
-/

namespace PresenceDevice

open Critical

/-- A program of the presence module. Its input is the tick counter. -/
abbrev Section (α : Type) := Critical Presence TickType α

/-! ### The display -/

/-- The module with another framebuffer. -/
def Presence.mapBuffer (draw : Frame → Frame) (p : Presence) : Presence :=
  { p with oled := { p.oled with oledBuffer := draw p.oled.oledBuffer } }

/-- The module with another panel. -/
def Presence.mapPanel (transfer : Sh1106 → Sh1106) (p : Presence) : Presence :=
  { p with oled := { p.oled with panel := transfer p.oled.panel } }

/-- A statement that draws into `oled_buffer`. -/
def onBuffer (draw : Frame → Frame) : Section Unit := modify (Presence.mapBuffer draw)

/-- A change of the D/C line, or a byte that arrives over SPI. -/
def onPanel (transfer : Sh1106 → Sh1106) : Section Unit := modify (Presence.mapPanel transfer)

/-- `oled_send_command`. -/
def oledSendCommandSection (command : UInt8) : Section Unit := do
  onPanel fun panel => { panel with dataLine := false }
  onPanel fun panel => panel.receive command

/-- `oled_send_data`. -/
def oledSendDataSection (data : List UInt8) : Section Unit := do
  onPanel fun panel => { panel with dataLine := true }
  forM data fun byte => onPanel fun panel => panel.receive byte

/-- `oled_write_page`. -/
def oledWritePageSection (page : UInt8) (data : List UInt8) : Section Unit := do
  oledSendCommandSection (0xB0 ||| page)
  oledSendCommandSection 0x02
  oledSendCommandSection 0x10
  oledSendDataSection data

/-- The body of the loop of `oled_flush`. -/
def oledFlushPage (page : Fin oledPages) : Section Unit := do
  let p ← get
  oledWritePageSection (UInt8.ofNat page) (pageBytes p.oled.oledBuffer page)

/-- `oled_flush`. -/
def oledFlushSection : Section Unit := do
  forM (List.finRange oledPages) oledFlushPage
  modify fun p => { p with oled := { p.oled with flushed := some p.oled.oledBuffer } }

/-- `presence_clear_locked`. -/
def presenceClearSection : Section Unit := do
  onBuffer fun _ => oledClear
  oledFlushSection

/-- The body of the loop of `presence_draw_locked`. -/
def drawRowSection (index : ℕ) : Section Unit := do
  let p ← get
  onBuffer (oledDrawText 0 ((4 + index) % 256) (bodyRow p index))

/-- `presence_draw_locked`, up to its `oled_flush`. -/
def presenceFrameSection : Section Unit := do
  onBuffer fun _ => oledClear
  let p ← get
  onBuffer (oledDrawText 0 0 (CString.ofBuffer p.presenceSource))
  let p ← get
  onBuffer (oledDrawText 0 2 (CString.ofBuffer p.presenceTitle))
  forM (List.range presenceBodyLinesPerPage) drawRowSection
  let p ← get
  if p.presencePageCount > 1 then
    onBuffer (oledDrawText 0 7 (pageIndicator p.presenceCurrentPage p.presencePageCount))

/-- `presence_draw_locked`. -/
def presenceDrawSection : Section Unit := do
  presenceFrameSection
  oledFlushSection

/-! ### The operations -/

/-- `presence_show_message` under the mutex, up to the drawing. -/
def storeMessageSection (message : AgentMessage) : Section Unit := do
  modify fun p => { p with
    presenceSource := copyBounded p.presenceSource (presenceLineChars + 1) message.source }
  modify fun p => { p with
    presenceTitle := copyBounded p.presenceTitle (presenceLineChars + 1) message.title }
  modify fun p => { p with
    presenceBody := copyBounded p.presenceBody (presenceBodyMaxBytes + 1) message.body }
  modify fun p =>
    let layout := presenceLayoutBody (some (CString.ofBuffer p.presenceBody))
      (some p.presenceLines) presenceMaxBodyLines
    { p with
      presenceLines := layout.1.getD p.presenceLines
      presenceLineCount := layout.2 }
  modify fun p => { p with
    presencePageCount := (p.presenceLineCount + presenceBodyLinesPerPage - 1)
      / presenceBodyLinesPerPage % 2 ^ 16 }
  let p ← get
  if p.presencePageCount = 0 ∨ p.presencePageCount > presenceMaxPageCount then
    modify fun p => { p with presencePageCount := 1 }
  modify fun p => { p with presenceState := presenceStateMessage p.presencePageCount }
  modify fun p => { p with presenceCurrentPage := p.presenceState.currentPage }
  modify fun p => { p with presencePageCount := p.presenceState.pageCount }
  modify fun p => { p with presenceDeadline := 0 }

/-- `presence_show_message` under the mutex. -/
def presenceShowMessageSection (message : AgentMessage) : Section Unit := do
  storeMessageSection message
  presenceDrawSection

/-- `presence_next_page` in a state that is not IDLE, up to the drawing. -/
def turnPageSection (pdMsToTicks : ℕ → TickType) : Section Unit := do
  modify fun p => { p with presenceState := presenceStateShortPress p.presenceState }
  modify fun p => { p with presenceCurrentPage := p.presenceState.currentPage }
  let tick ← input
  modify fun p => { p with presenceDeadline := tick + pdMsToTicks readingTimeoutMs }

/-- `presence_next_page` under the mutex. -/
def presenceNextPageSection (pdMsToTicks : ℕ → TickType) : Section Unit := do
  let p ← get
  if p.presenceState.state ≠ .idle then
    turnPageSection pdMsToTicks
    presenceDrawSection

/-- `presence_acknowledge` under the mutex. -/
def presenceAcknowledgeSection : Section Unit := do
  modify fun p => { p with presenceState := presenceStateLongPress p.presenceState }
  modify fun p => { p with presenceDeadline := 0 }
  presenceClearSection

/-- `presence_update` under the mutex. The tick counter is read only while a message is being
read. -/
def presenceUpdateSection : Section Unit := do
  let p ← get
  if presenceStateIsReading p.presenceState then
    let tick ← input
    let p ← get
    if (tick - p.presenceDeadline).toInt ≥ 0 then
      modify fun p => { p with presenceState := presenceStateTimeout p.presenceState }
      presenceClearSection

/-! ### Their effect -/

section Maps

variable (p : Presence) (f g : Frame → Frame) (t u : Sh1106 → Sh1106)

@[simp] theorem mapBuffer_presenceSource :
    (p.mapBuffer f).presenceSource = p.presenceSource := rfl

@[simp] theorem mapBuffer_presenceTitle : (p.mapBuffer f).presenceTitle = p.presenceTitle := rfl

@[simp] theorem mapBuffer_presenceCurrentPage :
    (p.mapBuffer f).presenceCurrentPage = p.presenceCurrentPage := rfl

@[simp] theorem mapBuffer_presencePageCount :
    (p.mapBuffer f).presencePageCount = p.presencePageCount := rfl

@[simp] theorem mapBuffer_panel : (p.mapBuffer f).oled.panel = p.oled.panel := rfl

@[simp] theorem bodyRow_mapBuffer (index : ℕ) : bodyRow (p.mapBuffer f) index = bodyRow p index :=
  rfl

@[simp] theorem mapBuffer_mapBuffer :
    (p.mapBuffer f).mapBuffer g = p.mapBuffer fun buffer => g (f buffer) := rfl

@[simp] theorem mapPanel_oledBuffer : (p.mapPanel t).oled.oledBuffer = p.oled.oledBuffer := rfl

@[simp] theorem mapPanel_panel : (p.mapPanel t).oled.panel = t p.oled.panel := rfl

@[simp] theorem mapPanel_mapPanel :
    (p.mapPanel t).mapPanel u = p.mapPanel fun panel => u (t panel) := rfl

end Maps

variable {p p' : Presence} {x : Unit}

@[simp] theorem exec_onBuffer {draw : Frame → Frame} :
    (onBuffer draw).Exec p x p' ↔ p' = p.mapBuffer draw :=
  exec_modify

@[simp] theorem exec_onPanel {transfer : Sh1106 → Sh1106} :
    (onPanel transfer).Exec p x p' ↔ p' = p.mapPanel transfer :=
  exec_modify

@[simp] theorem exec_oledSendCommandSection {command : UInt8} :
    (oledSendCommandSection command).Exec p x p' ↔ p' = p.mapPanel (oledSendCommand command) := by
  simp only [oledSendCommandSection, exec_bind, exec_onPanel, mapPanel_mapPanel, exists_eq_left,
    exists_const]
  rfl

/-- The bytes of a transfer, one after the other. -/
theorem foldl_receive (data : List UInt8) (p : Presence) :
    data.foldl (fun p byte => p.mapPanel fun panel => panel.receive byte) p =
      p.mapPanel fun panel => panel.transmit data := by
  induction data generalizing p with
  | nil => rfl
  | cons byte data ih => exact ih _

@[simp] theorem exec_oledSendDataSection {data : List UInt8} :
    (oledSendDataSection data).Exec p x p' ↔ p' = p.mapPanel (oledSendData data) := by
  simp only [oledSendDataSection, exec_bind, exec_onPanel, exists_eq_left, exists_const,
    exec_forM fun _ _ _ _ => exec_onPanel, foldl_receive]
  rfl

@[simp] theorem exec_oledWritePageSection {page : UInt8} {data : List UInt8} :
    (oledWritePageSection page data).Exec p x p' ↔ p' = p.mapPanel (oledWritePage page data) := by
  simp only [oledWritePageSection, exec_bind, exec_oledSendCommandSection,
    exec_oledSendDataSection, mapPanel_mapPanel, exists_eq_left, exists_const]
  rfl

/-- The panel when one page of the framebuffer has been sent. -/
def sendPage (p : Presence) (page : Fin oledPages) : Presence :=
  p.mapPanel (oledWritePage (UInt8.ofNat page) (pageBytes p.oled.oledBuffer page))

/-- Transfers leave the framebuffer alone, so all pages are of one frame. -/
theorem foldl_sendPage (pages : List (Fin oledPages)) (p : Presence) :
    pages.foldl sendPage p = p.mapPanel fun panel =>
      pages.foldl (fun panel (page : Fin oledPages) =>
        oledWritePage (UInt8.ofNat page) (pageBytes p.oled.oledBuffer page) panel) panel := by
  induction pages generalizing p with
  | nil => rfl
  | cons page pages ih =>
    rw [List.foldl_cons, ih]
    simp only [sendPage, mapPanel_oledBuffer, mapPanel_mapPanel, List.foldl_cons]

@[simp] theorem exec_oledFlushPage {page : Fin oledPages} :
    (oledFlushPage page).Exec p x p' ↔ p' = sendPage p page := by
  simp [oledFlushPage, sendPage]

@[simp] theorem exec_oledFlushSection :
    oledFlushSection.Exec p x p' ↔ p' = { p with oled := oledFlush p.oled } := by
  simp only [oledFlushSection, exec_bind, exec_forM fun _ _ _ _ => exec_oledFlushPage,
    foldl_sendPage, exec_modify, exists_eq_left, exists_const, Presence.mapPanel, oledFlush]

@[simp] theorem exec_presenceClearSection :
    presenceClearSection.Exec p x p' ↔ p' = presenceClearLocked p := by
  simp [presenceClearSection, presenceClearLocked, Presence.mapBuffer]

/-- The framebuffer when one of the body rows has been drawn. -/
def drawRow (p : Presence) (index : ℕ) : Presence :=
  p.mapBuffer (oledDrawText 0 ((4 + index) % 256) (bodyRow p index))

/-- Drawing a row leaves its text alone, so the rows are those of one page. -/
theorem foldl_drawRow (rows : List ℕ) (p : Presence) :
    rows.foldl drawRow p = p.mapBuffer fun buffer => rows.foldl (fun buffer index =>
      oledDrawText 0 ((4 + index) % 256) (bodyRow p index) buffer) buffer := by
  induction rows generalizing p with
  | nil => rfl
  | cons index rows ih => exact ih _

@[simp] theorem exec_drawRowSection {index : ℕ} :
    (drawRowSection index).Exec p x p' ↔ p' = drawRow p index := by
  simp [drawRowSection, drawRow]

@[simp] theorem exec_presenceFrameSection :
    presenceFrameSection.Exec p x p' ↔ p' = p.mapBuffer fun _ => presenceFrame p := by
  simp only [presenceFrameSection, exec_bind, exec_onBuffer, exec_get,
    exec_forM fun _ _ _ _ => exec_drawRowSection, foldl_drawRow, exec_ite, exec_pure,
    and_assoc, exists_and_left, exists_eq_left, exists_const, mapBuffer_presenceSource,
    mapBuffer_presenceTitle, mapBuffer_presenceCurrentPage, mapBuffer_presencePageCount,
    bodyRow_mapBuffer, mapBuffer_mapBuffer, presenceFrame, true_and]
  by_cases hpages : p.presencePageCount > 1
  · simp only [hpages, if_true]
  · simp only [hpages, if_false]

@[simp] theorem exec_presenceDrawSection :
    presenceDrawSection.Exec p x p' ↔ p' = presenceDrawLocked p := by
  simp only [presenceDrawSection, exec_bind, exec_presenceFrameSection, exec_oledFlushSection,
    exists_eq_left, exists_const]
  rfl

/-- The effect of `presence_show_message`. -/
theorem exec_presenceShowMessageSection {message : AgentMessage} (hmutex : p.presenceMutex = true) :
    (presenceShowMessageSection message).Exec p x p' ↔
      p' = presenceShowMessage (some message) p := by
  simp only [presenceShowMessageSection, storeMessageSection, exec_bind, exec_modify, exec_get,
    exec_ite, exec_presenceDrawSection, and_assoc, exists_and_left, exists_eq_left,
    exists_const, presenceShowMessage, hmutex, Bool.not_true, Bool.false_eq_true, if_false]
  -- the fallback is the only branch
  generalize (presenceLayoutBody (some (CString.ofBuffer (copyBounded p.presenceBody
    (presenceBodyMaxBytes + 1) message.body))) (some p.presenceLines) presenceMaxBodyLines) = layout
  generalize (layout.2 + presenceBodyLinesPerPage - 1) / presenceBodyLinesPerPage % 2 ^ 16 = count
  by_cases hcount : count = 0 ∨ count > presenceMaxPageCount
  · simp only [hcount, if_true, exists_eq_left]
  · simp only [hcount, if_false, exists_eq_left]

/-- The effect of `presence_next_page`. -/
theorem exec_presenceNextPageSection {pdMsToTicks : ℕ → TickType}
    (hmutex : p.presenceMutex = true) :
    (presenceNextPageSection pdMsToTicks).Exec p x p' ↔
      ∃ tick, p' = presenceNextPage pdMsToTicks tick p := by
  simp only [presenceNextPageSection, turnPageSection, exec_bind, exec_modify, exec_get, exec_input,
    exec_ite, exec_pure, exec_presenceDrawSection, and_assoc, exists_and_left, exists_eq_left,
    exists_const, presenceNextPage, hmutex, Bool.not_true, Bool.false_eq_true, if_false]
  by_cases hstate : p.presenceState.state ≠ .idle
  · simp only [hstate, if_true, ne_eq, not_false_eq_true]
    constructor
    · rintro ⟨_, ⟨tick, rfl⟩, rfl⟩
      exact ⟨tick, rfl⟩
    · rintro ⟨tick, rfl⟩
      exact ⟨_, ⟨tick, rfl⟩, rfl⟩
  · simp only [hstate, if_false, true_and, exists_const]

/-- The effect of `presence_acknowledge`. -/
theorem exec_presenceAcknowledgeSection (hmutex : p.presenceMutex = true) :
    presenceAcknowledgeSection.Exec p x p' ↔ p' = presenceAcknowledge p := by
  simp only [presenceAcknowledgeSection, exec_bind, exec_modify, exec_presenceClearSection,
    exists_eq_left, exists_const, presenceAcknowledge, hmutex, Bool.not_true, Bool.false_eq_true,
    if_false]

/-- The effect of `presence_update`. -/
theorem exec_presenceUpdateSection (hmutex : p.presenceMutex = true) :
    presenceUpdateSection.Exec p x p' ↔ ∃ tick, p' = presenceUpdate tick p := by
  simp only [presenceUpdateSection, exec_bind, exec_modify, exec_get, exec_input,
    exec_ite, exec_pure, exec_presenceClearSection, and_assoc, exists_and_left, exists_eq_left,
    exists_const, presenceUpdate, hmutex, Bool.not_true, Bool.false_eq_true, if_false]
  by_cases hreading : presenceStateIsReading p.presenceState = true
  · simp only [hreading, if_true, true_and]
    refine exists_congr fun tick => ?_
    by_cases hover : (tick - p.presenceDeadline).toInt ≥ 0
    · simp only [hover, if_true]
    · simp only [hover, if_false]
  · simp [hreading]

/-! ### What is on the panel meanwhile -/

/-- The visible area of the panel is the frame. -/
def GlassShows (frame : Frame) (panel : Sh1106) : Prop :=
  ∀ (page : Fin oledPages) (column : Fin oledWidth), panel.ram page (column + sh1106Offset) =
    frame ⟨page * oledWidth + column, page_index_lt page column⟩

/-- The first `n` bytes of the visible area are of the frame `new`, the others of `old`. -/
def Swept (old new : Frame) (n : ℕ) (panel : Sh1106) : Prop :=
  ∀ (page : Fin oledPages) (column : Fin oledWidth), panel.ram page (column + sh1106Offset) =
    if page * oledWidth + column < n then
      new ⟨page * oledWidth + column, page_index_lt page column⟩
    else old ⟨page * oledWidth + column, page_index_lt page column⟩

/-- `new` replaces `old` from the first byte to the last, and has come as far as some byte. -/
def Blended (old new : Frame) (panel : Sh1106) : Prop := ∃ n, Swept old new n panel

variable {old new : Frame} {panel : Sh1106} {n : ℕ}

theorem swept_zero : Swept old new 0 panel ↔ GlassShows old panel := by
  simp only [Swept, GlassShows, Nat.not_lt_zero, if_false]

theorem swept_end : Swept old new (oledWidth * oledPages) panel ↔ GlassShows new panel := by
  simp only [Swept, GlassShows, page_index_lt, if_true]

theorem GlassShows.blended (h : GlassShows old panel) (new : Frame) : Blended old new panel :=
  ⟨0, swept_zero.mpr h⟩

theorem oledFlush_glassShows (oled : Oled) :
    GlassShows oled.oledBuffer (oledFlush oled).panel :=
  (oledFlush_shows oled).shown

/-- What is shown is a matter of the RAM only. -/
theorem Swept.of_ram {panel' : Sh1106} (h : Swept old new n panel) (hram : panel'.ram = panel.ram) :
    Swept old new n panel' := by
  intro page column
  rw [hram]
  exact h page column

@[simp] theorem throughout_onPanel {I : Presence → Prop} {transfer : Sh1106 → Sh1106} :
    (onPanel transfer).Throughout I p ↔ I p ∧ I (p.mapPanel transfer) :=
  throughout_modify

@[simp] theorem throughout_onBuffer {I : Presence → Prop} {draw : Frame → Frame} :
    (onBuffer draw).Throughout I p ↔ I p ∧ I (p.mapBuffer draw) :=
  throughout_modify

theorem throughout_oledSendCommandSection (h : Swept old new n p.oled.panel) (command : UInt8) :
    (oledSendCommandSection command).Throughout (fun p => Blended old new p.oled.panel) p := by
  simp only [oledSendCommandSection, throughout_bind, throughout_onPanel, exec_onPanel]
  refine ⟨⟨⟨n, h⟩, n, h⟩, ?_⟩
  rintro _ _ rfl
  exact ⟨⟨n, h⟩, n, h.of_ram (receive_ram rfl command)⟩

/-- A byte of data moves the boundary by one. -/
theorem Swept.receive {page : Fin oledPages} {column : Fin oledWidth}
    (h : Swept old new (page * oledWidth + column) panel) (hdata : panel.dataLine = true)
    (hpage : panel.page = page) (hcolumn : panel.column = column + sh1106Offset) :
    Swept old new (page * oledWidth + column + 1)
      (panel.receive (new ⟨page * oledWidth + column, page_index_lt page column⟩)) := by
  intro row i
  have hbound := h row i
  have hram : (panel.receive (new ⟨page * oledWidth + column, page_index_lt page column⟩)).ram =
      Function.update panel.ram panel.page (Function.update (panel.ram panel.page) panel.column
        (new ⟨page * oledWidth + column, page_index_lt page column⟩)) := by
    rw [Sh1106.receive, if_pos hdata]
  rw [hram, hpage, hcolumn]
  have hi := i.isLt
  have hc := column.isLt
  by_cases hsame : row = page ∧ i = column
  · obtain ⟨rfl, rfl⟩ := hsame
    rw [Function.update_self, Function.update_self, if_pos (Nat.lt_succ_self _)]
  · -- every other byte is where it was, on the same side of the boundary
    have hne : (row : ℕ) * oledWidth + i ≠ page * oledWidth + column := by
      simp only [Fin.ext_iff] at hsame
      simp only [oledWidth] at hi hc ⊢
      omega
    have hkept : Function.update panel.ram page (Function.update (panel.ram page)
        (column + sh1106Offset) (new ⟨page * oledWidth + column, page_index_lt page column⟩)) row
          (i + sh1106Offset) = panel.ram row (i + sh1106Offset) := by
      by_cases hrow : (row : ℕ) = page
      · rw [hrow, Function.update_self, Function.update_of_ne]
        simp only [hrow] at hne
        omega
      · rw [Function.update_of_ne hrow]
    rw [hkept, hbound]
    congr 1
    rw [eq_iff_iff]
    omega

/-- The commands in front of a page set its address, whatever it was before. -/
theorem address_eq {page : UInt8} (hpage : page.toNat < oledPages) (panel : Sh1106) :
    { oledSendCommand 0x10 (oledSendCommand 0x02 (oledSendCommand (0xB0 ||| page) panel)) with
      dataLine := true } =
      { panel with page := page.toNat, column := sh1106Offset, dataLine := true } :=
  oledWritePage_eq hpage []

theorem getElem?_pageBytes {buffer : Frame} {page : Fin oledPages} {k : ℕ} {byte : UInt8}
    (h : (pageBytes buffer page)[k]? = some byte) :
    ∃ column : Fin oledWidth, k = column ∧
      byte = buffer ⟨page * oledWidth + column, page_index_lt page column⟩ := by
  obtain ⟨hk, hbyte⟩ := List.getElem?_eq_some_iff.mp h
  rw [length_pageBytes] at hk
  have hget : (pageBytes buffer page).getD k 0 = byte := by
    rw [List.getD, h]
    rfl
  exact ⟨⟨k, hk⟩, rfl, hget.symm.trans (getD_pageBytes page ⟨k, hk⟩)⟩

/-- The bytes of a page replace one another from the left to the right. -/
theorem throughout_pageBytes {page : Fin oledPages}
    (h : Swept old new (page * oledWidth) p.oled.panel) (hdata : p.oled.panel.dataLine = true)
    (hpage : p.oled.panel.page = page) (hcolumn : p.oled.panel.column = sh1106Offset) :
    (forM (pageBytes new page) fun byte => onPanel fun panel => panel.receive byte :
      Section Unit).Throughout (fun p => Blended old new p.oled.panel) p := by
  refine throughout_forM (J := fun l (q : Presence) => ∃ k, l = (pageBytes new page).drop k ∧
      Swept old new (page * oledWidth + k) q.oled.panel ∧ q.oled.panel.dataLine = true ∧
        q.oled.panel.page = page ∧ q.oled.panel.column = k + sh1106Offset) ?_ ?_ _
    ⟨0, rfl, h, hdata, hpage, by rw [hcolumn, Nat.zero_add]⟩
  · rintro l q ⟨k, -, hswept, -⟩
    exact ⟨_, hswept⟩
  · rintro byte l q ⟨k, hl, hswept, hq, hqpage, hqcolumn⟩
    have hk : (pageBytes new page)[k]? = some byte := by
      rw [← List.head?_drop, ← hl]
      rfl
    obtain ⟨column, rfl, rfl⟩ := getElem?_pageBytes hk
    have hnext := hswept.receive hq hqpage hqcolumn
    rw [throughout_onPanel]
    refine ⟨⟨⟨_, hswept⟩, _, hnext⟩, ?_⟩
    rintro x q' hexec
    obtain rfl := exec_onPanel.mp hexec
    refine ⟨column + 1, ?_, hnext, ?_⟩
    · rw [← List.drop_drop, ← hl]
      rfl
    · simp only [mapPanel_panel, Sh1106.receive, if_pos hq]
      exact ⟨hq, hqpage, by rw [hqcolumn]; omega⟩

theorem Swept.writePage {page : Fin oledPages} (h : Swept old new (page * oledWidth) panel) :
    Swept old new ((page + 1) * oledWidth)
      (oledWritePage (UInt8.ofNat page) (pageBytes new page) panel) := by
  intro row column
  have hcolumn := column.isLt
  have hrow := h row column
  rw [oledWritePage_ram (by rw [toNat_page]; exact page.isLt), toNat_page, length_pageBytes]
  by_cases hsame : (row : ℕ) = page
  · obtain rfl : row = page := Fin.ext hsame
    rw [if_pos ⟨rfl, by omega, by omega⟩, if_pos (by rw [Nat.add_mul]; omega), Nat.add_sub_cancel]
    exact getD_pageBytes row column
  · rw [if_neg fun hin => hsame hin.1, hrow]
    congr 1
    rw [eq_iff_iff]
    simp only [oledWidth] at hcolumn ⊢
    omega

/-- The transfer of a page. -/
theorem throughout_oledFlushPage {page : Fin oledPages}
    (h : Swept old new (page * oledWidth) p.oled.panel) (hbuffer : p.oled.oledBuffer = new) :
    (oledFlushPage page).Throughout (fun p => Blended old new p.oled.panel) p := by
  have hpage : (UInt8.ofNat page).toNat < oledPages := by
    rw [toNat_page]
    exact page.isLt
  have h1 := h.of_ram (oledSendCommand_ram (0xB0 ||| UInt8.ofNat page) _)
  have h2 := h1.of_ram (oledSendCommand_ram 0x02 _)
  have h3 := h2.of_ram (oledSendCommand_ram 0x10 _)
  have haddress := address_eq hpage p.oled.panel
  simp only [oledFlushPage, oledWritePageSection, oledSendDataSection, throughout_bind,
    throughout_get, exec_get, and_imp, forall_eq_apply_imp_iff, forall_eq,
    exec_oledSendCommandSection, exec_onPanel, throughout_onPanel, hbuffer, forall_const,
    mapPanel_mapPanel, mapPanel_panel, haddress]
  refine ⟨⟨_, h⟩, throughout_oledSendCommandSection h _, throughout_oledSendCommandSection h1 _,
    throughout_oledSendCommandSection h2 _, ⟨⟨_, h3⟩, _, h.of_ram rfl⟩, ?_⟩
  refine throughout_pageBytes ?_ ?_ ?_ ?_
  all_goals simp only [mapPanel_panel, haddress]
  · exact h.of_ram rfl
  · exact toNat_page page

/-- **A flush replaces one frame by the other**, from the first byte to the last. -/
theorem throughout_oledFlushSection (h : GlassShows old p.oled.panel) :
    oledFlushSection.Throughout (fun q => Blended old p.oled.oledBuffer q.oled.panel) p := by
  rw [oledFlushSection, throughout_bind]
  constructor
  · refine throughout_forM (J := fun l (q : Presence) => ∃ k,
        l = (List.finRange oledPages).drop k ∧ q.oled.oledBuffer = p.oled.oledBuffer ∧
          Swept old p.oled.oledBuffer (k * oledWidth) q.oled.panel) ?_ ?_ _
      ⟨0, rfl, rfl, by rwa [Nat.zero_mul, swept_zero]⟩
    · rintro l q ⟨k, -, -, hswept⟩
      exact ⟨_, hswept⟩
    · rintro page l q ⟨k, hl, hbuffer, hswept⟩
      have hk : (List.finRange oledPages)[k]? = some page := by
        rw [← List.head?_drop, ← hl]
        rfl
      obtain ⟨hlt, hpage⟩ := List.getElem?_eq_some_iff.mp hk
      obtain rfl : k = page := by
        rw [← hpage]
        simp
      refine ⟨throughout_oledFlushPage hswept hbuffer, ?_⟩
      rintro x q' hexec
      obtain rfl := exec_oledFlushPage.mp hexec
      refine ⟨page + 1, ?_, ?_, ?_⟩
      · rw [← List.drop_drop, ← hl]
        rfl
      · rw [sendPage, mapPanel_oledBuffer, hbuffer]
      · rw [sendPage, mapPanel_panel, hbuffer]
        exact hswept.writePage
  · rintro x q hexec
    rw [exec_forM fun _ _ _ _ => exec_oledFlushPage, foldl_sendPage] at hexec
    have hshows : GlassShows p.oled.oledBuffer q.oled.panel := by
      have hflush := oledFlush_glassShows p.oled
      simp only [oledFlush] at hflush
      simpa only [hexec, mapPanel_panel] using hflush
    rw [throughout_modify]
    exact ⟨⟨_, swept_end.mpr hshows⟩, _, swept_end.mpr hshows⟩

/-! ### What is on the panel during an operation -/

/-- The statements before the first transfer do not change the panel. -/
theorem throughout_drawRows {rows : List ℕ} (h : p.oled.panel = panel) :
    (forM rows drawRowSection).Throughout (fun q => q.oled.panel = panel) p := by
  refine throughout_forM (J := fun _ (q : Presence) => q.oled.panel = panel) (fun _ _ h => h) ?_
    rows h
  rintro index _ q hq
  refine ⟨by simp [drawRowSection, hq], ?_⟩
  rintro x q' hexec
  rw [exec_drawRowSection.mp hexec, drawRow, mapBuffer_panel, hq]

theorem throughout_presenceFrameSection :
    presenceFrameSection.Throughout (fun q => q.oled.panel = p.oled.panel) p := by
  simp only [presenceFrameSection, gt_iff_lt, throughout_bind, throughout_onBuffer,
    mapBuffer_panel, and_self, exec_onBuffer, throughout_get, exec_get, throughout_ite, not_lt,
    throughout_pure, and_imp, forall_eq_apply_imp_iff, forall_eq, forall_const, and_self_left,
    mapBuffer_presenceTitle, mapBuffer_mapBuffer, mapBuffer_presenceSource, true_and]
  have hrows := @throughout_drawRows (p.mapBuffer fun buffer =>
    oledDrawText 0 2 (CString.ofBuffer p.presenceTitle)
      (oledDrawText 0 0 (CString.ofBuffer p.presenceSource) oledClear)) p.oled.panel
        (List.range presenceBodyLinesPerPage) rfl
  refine ⟨hrows, fun x q hexec => ?_⟩
  have hq : q.oled.panel = p.oled.panel := hexec.throughout hrows
  exact ⟨hq, fun _ => hq, fun _ => hq⟩

theorem throughout_storeMessageSection {message : AgentMessage} :
    (storeMessageSection message).Throughout (fun q => q.oled.panel = p.oled.panel) p := by
  simp [storeMessageSection]

theorem throughout_turnPageSection {pdMsToTicks : ℕ → TickType} :
    (turnPageSection pdMsToTicks).Throughout (fun q => q.oled.panel = p.oled.panel) p := by
  simp [turnPageSection]

theorem throughout_presenceClearSection (h : GlassShows old p.oled.panel) :
    presenceClearSection.Throughout (fun q => Blended old oledClear q.oled.panel) p := by
  simp only [presenceClearSection, throughout_bind, throughout_onBuffer, exec_onBuffer]
  refine ⟨⟨h.blended _, h.blended _⟩, ?_⟩
  rintro _ _ rfl
  exact throughout_oledFlushSection h

theorem throughout_presenceDrawSection (h : GlassShows old p.oled.panel) :
    presenceDrawSection.Throughout (fun q => Blended old (presenceFrame p) q.oled.panel) p := by
  simp only [presenceDrawSection, throughout_bind, exec_presenceFrameSection]
  refine ⟨throughout_presenceFrameSection.imp fun q hq => ?_, ?_⟩
  · rw [hq]
    exact h.blended _
  · rintro _ _ rfl
    exact throughout_oledFlushSection h

/-- An operation that prepares a drawing and draws. -/
theorem throughout_thenDraw {P : Section Unit} (h : GlassShows old p.oled.panel)
    (hpanel : P.Throughout (fun q => q.oled.panel = p.oled.panel) p)
    (hframe : ∀ x p', (P >>= fun _ => presenceDrawSection).Exec p x p' →
      p'.oled.oledBuffer = new) :
    (P >>= fun _ => presenceDrawSection).Throughout (fun q => Blended old new q.oled.panel) p := by
  rw [throughout_bind]
  refine ⟨hpanel.imp fun q hq => ?_, ?_⟩
  · rw [hq]
    exact h.blended new
  · rintro x q hexec
    have hq : q.oled.panel = p.oled.panel := hexec.throughout hpanel
    have hdraw : (P >>= fun _ => presenceDrawSection).Exec p () (presenceDrawLocked q) :=
      exec_bind.mpr ⟨x, q, hexec, exec_presenceDrawSection.mpr rfl⟩
    obtain rfl : presenceFrame q = new := hframe () (presenceDrawLocked q) hdraw
    rw [← hq] at h
    exact throughout_presenceDrawSection h

/-! ### The operations, seen from the panel -/

variable {latest : Option AgentMessage} {m : AgentMessage}

/-- While a message is stored and drawn, its first page replaces what was shown. -/
theorem presenceShowMessageSection_blended (hrep : Represents latest p)
    (h : GlassShows old p.oled.panel) (m : AgentMessage) :
    (presenceShowMessageSection m).Throughout
      (fun q => Blended old (presenceFrame (storeMessage m p)) q.oled.panel) p := by
  refine throughout_thenDraw h throughout_storeMessageSection ?_
  intro x p' hexec
  rw [(exec_presenceShowMessageSection hrep.mutex).mp hexec, presenceShowMessage_some hrep]
  rfl

/-- While a page is turned, it replaces what was shown. -/
theorem presenceNextPageSection_blended (hrep : Represents latest p)
    (h : GlassShows old p.oled.panel) (pdMsToTicks : ℕ → TickType)
    (hnew : p.presenceState.state ≠ .idle → presenceFrame (turnPage pdMsToTicks 0 p) = new) :
    (presenceNextPageSection pdMsToTicks).Throughout
      (fun q => Blended old new q.oled.panel) p := by
  simp only [presenceNextPageSection, throughout_bind, throughout_get, exec_get, and_imp,
    forall_eq_apply_imp_iff, forall_eq]
  refine ⟨h.blended _, throughout_ite.mpr ⟨fun hstate => ?_, fun _ => h.blended _⟩⟩
  refine throughout_thenDraw h throughout_turnPageSection ?_
  intro x p' hexec
  have hnext : (presenceNextPageSection pdMsToTicks).Exec p x p' := by
    refine exec_bind.mpr ⟨p, p, exec_get.mpr ⟨rfl, rfl⟩, ?_⟩
    rwa [if_pos hstate]
  obtain ⟨tick, rfl⟩ := (exec_presenceNextPageSection hrep.mutex).mp hnext
  rw [presenceNextPage_of_ne_idle hrep _ _ hstate, ← hnew hstate]
  rfl

/-- While a message is put away, the blank frame replaces what was shown. -/
theorem presenceAcknowledgeSection_blended (h : GlassShows old p.oled.panel) :
    presenceAcknowledgeSection.Throughout (fun q => Blended old oledClear q.oled.panel) p := by
  simp only [presenceAcknowledgeSection, throughout_bind, throughout_modify, exec_modify,
    forall_const]
  refine ⟨⟨h.blended _, h.blended _⟩, ?_⟩
  rintro _ rfl
  refine ⟨⟨h.blended _, h.blended _⟩, ?_⟩
  rintro _ rfl
  exact throughout_presenceClearSection h

theorem presenceUpdateSection_blended (h : GlassShows old p.oled.panel) :
    presenceUpdateSection.Throughout (fun q => Blended old oledClear q.oled.panel) p := by
  simp only [presenceUpdateSection, throughout_bind, throughout_get, throughout_input,
    throughout_modify, exec_get, exec_input, exec_modify, and_imp, forall_eq_apply_imp_iff,
    forall_eq, throughout_ite, throughout_pure, h.blended, forall_const, implies_true, true_and,
    and_true]
  intro _ tick _
  exact throughout_presenceClearSection h

end PresenceDevice
