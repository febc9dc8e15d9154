import Mathlib.Tactic.IntervalCases
import PresenceDevice.OledText
import PresenceDevice.PresenceRun

/-!
# The screen agrees with the model

The same facts are kept three times: in the state machine, in the copies of its page counters, and
in the framebuffer. `screen` says what a page of a message looks like with no reference to any of
them; the framebuffer is shown to be that screen, or empty, after every run.

## Main definitions

* `pageLine`, `screenRow`, `screen`: the text of each row of a page, and its pixels
* `Displays`: the framebuffer, the panel and the page counters agree with the model

## Main results

* `presenceFrame_eq_screen`: what `presence_draw_locked` draws
* `presenceRun_displays`: the screen agrees with the model after every run
-/

namespace PresenceDevice

variable {latest : Option AgentMessage} {p : Presence} {m : AgentMessage}

/-- The text of a line. -/
def lineString (body : CString) (l : PresenceLine) : CString where
  bytes := lineText body l
  nulFree h := body.nulFree (List.mem_of_mem_drop (List.mem_of_mem_take h))

/-- The text of one of the three body rows of a page. -/
def pageLine (m : AgentMessage) (page index : ℕ) : CString :=
  (m.lines[page * presenceBodyLinesPerPage + index]?).elim default (lineString m.storedBody)

/-- The page indicator: the page, counted from one, and the page count. -/
def indicator (m : AgentMessage) (page : ℕ) : CString :=
  .ofBuffer (decimal (page + 1) ++ '/'.toUInt8 :: decimal m.pageCount)

/-- The text of every row of a page. -/
def screenRow (m : AgentMessage) (page : ℕ) : ℕ → CString
  | 0 => m.storedSource
  | 2 => m.storedTitle
  | 4 => pageLine m page 0
  | 5 => pageLine m page 1
  | 6 => pageLine m page 2
  | 7 => if m.pageCount > 1 then indicator m page else default
  | _ => default

/-- The pixels of a page: its rows on an otherwise empty display. -/
def screen (m : AgentMessage) (page : ℕ) : Frame :=
  fun i => renderText (screenRow m page (i / oledWidth)) (i % oledWidth)

/-! ### Drawing a page -/

/-- The counters of a page fit the indicator: three digits each at most. -/
theorem decimal_fits : ∀ n ≤ presenceMaxPageCount, (decimal n).length ≤ 3 ∧ 0 ∉ decimal n := by
  decide +kernel

/-- `page_indicator` has room for the whole text. -/
theorem pageIndicator_eq {page : ℕ} (hpage : page < m.pageCount) :
    pageIndicator page m.pageCount = indicator m page := by
  have hcount := decimal_fits m.pageCount m.pageCount_le
  have hcurrent := decimal_fits (page + 1) (Nat.succ_le_of_lt (hpage.trans_le m.pageCount_le))
  have hnul : 0 ∉ decimal (page + 1) ++ '/'.toUInt8 :: decimal m.pageCount := by
    simp only [List.mem_append, List.mem_cons, not_or]
    exact ⟨hcurrent.2, by decide, hcount.2⟩
  have hlen : (decimal (page + 1) ++ '/'.toUInt8 :: decimal m.pageCount).length ≤ 11 := by
    simp only [List.length_append, List.length_cons]
    omega
  apply CString.ext
  rw [indicator, CString.bytes_ofBuffer_of_nulFree hnul, pageIndicator, List.take_of_length_le hlen,
    CString.bytes_ofBuffer_append_nul hnul]

/-- The local `line` of `presence_draw_locked` holds the text of the row. -/
theorem bodyRow_eq (h : Represents (some m) p) (index : ℕ) :
    bodyRow p index = pageLine m p.presenceState.currentPage index := by
  have hholds := h.holds m rfl
  unfold bodyRow pageLine
  rw [h.shadow_page]
  by_cases hi : p.presenceState.currentPage * presenceBodyLinesPerPage + index
      < p.presenceLineCount
  · have hin := m.laidOut_lines.inside _ (List.mem_of_getElem? (hholds.getElem?_lines hi))
    rw [if_pos hi, hholds.getElem?_lines hi, Option.elim_some]
    generalize p.presenceLines _ = l at hin
    -- the line lies inside the string that the array starts with
    have hslice : (p.presenceBody.drop l.start).take l.length = lineText m.storedBody l := by
      obtain ⟨rest, hrest⟩ := CString.bytes_ofBuffer_prefix p.presenceBody
      have hlen : l.start + l.length ≤ m.storedBody.bytes.length := hin
      rw [← hrest, hholds.body, lineText, Tiling.slice, Nat.add_sub_cancel_left,
        List.drop_append_of_le_length (by omega),
        List.take_append_of_le_length (by rw [List.length_drop]; omega)]
    simp only [hslice]
    exact CString.ofBuffer_append_nul (lineString m.storedBody l) []
  · rw [if_neg hi, List.getElem?_eq_none (by rw [← hholds.line_count]; omega), Option.elim_none]
    exact CString.ofBuffer_zero_cons []

/-- **Drawing a page gives its screen**, whatever was on the display before. -/
theorem presenceFrame_eq_screen (h : Represents (some m) p) :
    presenceFrame p = screen m p.presenceState.currentPage := by
  have hholds := h.holds m rfl
  have hrow := bodyRow_eq h
  funext i
  have hi : (i : ℕ) / oledWidth < 8 := Nat.div_lt_of_lt_mul i.isLt
  have hrange : List.range presenceBodyLinesPerPage = [0, 1, 2] := rfl
  simp only [presenceFrame, hrange, List.foldl_cons, List.foldl_nil, hrow, hholds.source,
    hholds.title, h.shadow_page, h.shadow_count, hholds.page_count,
    pageIndicator_eq hholds.current_page]
  -- no indicator is the same as an empty one
  have hempty : ∀ buffer, (if m.pageCount > 1 then
      oledDrawText 0 7 (indicator m p.presenceState.currentPage) buffer else buffer) =
        oledDrawText 0 7 (screenRow m p.presenceState.currentPage 7) buffer := by
    intro buffer
    rw [screenRow]
    split_ifs <;> rfl
  rw [screen, hempty]
  simp (disch := decide) only [oledDrawText_apply]
  generalize (i : ℕ) / oledWidth = row at hi
  interval_cases row <;> simp [screenRow, renderText, oledClear]

/-! ### Runs -/

/-- What is on the display agrees with the model and with the last message shown. -/
structure Displays (latest : Option AgentMessage) (p : Presence) : Prop where
  /-- The framebuffer is the frame sent last. -/
  flushed : p.oled.flushed = some p.oled.oledBuffer
  shadows : ∀ m, latest = some m → p.presenceCurrentPage = p.presenceState.currentPage ∧
    p.presencePageCount = p.presenceState.pageCount
  idle : p.presenceState.state = .idle → p.oled.oledBuffer = oledClear
  /-- Nothing but the current page is on it. -/
  shown : p.presenceState.state ≠ .idle →
    ∃ m, latest = some m ∧ p.presenceState.pageCount = m.pageCount ∧
      p.oled.oledBuffer = screen m p.presenceState.currentPage

theorem Represents.displays_drawn (h : Represents (some m) p)
    (hstate : p.presenceState.state ≠ .idle) : Displays (some m) (presenceDrawLocked p) where
  flushed := rfl
  shadows _ _ := ⟨h.shadow_page, h.shadow_count⟩
  idle hidle := absurd hidle hstate
  shown _ := ⟨m, rfl, (h.holds m rfl).page_count, presenceFrame_eq_screen h⟩

theorem Represents.displays_cleared (h : Represents latest p)
    (hstate : p.presenceState.state = .idle) : Displays latest (presenceClearLocked p) where
  flushed := rfl
  shadows _ _ := ⟨h.shadow_page, h.shadow_count⟩
  idle _ := rfl
  shown hne := absurd hstate hne

/-- **Every call leaves the display in agreement with the model.** -/
theorem presenceCall_displays (h : Represents latest p) (hd : Displays latest p)
    (pdMsToTicks : ℕ → TickType) (tick : TickType) (call : PresenceCall) :
    Displays (nextMessage latest call) (presenceCall pdMsToTicks tick p call) := by
  cases call with
  | showMessage message =>
    cases message with
    | none => exact hd
    | some m =>
      rw [presenceCall, presenceShowMessage_some h]
      exact (storeMessage_represents h m).displays_drawn PresenceState.noConfusion
  | nextPage =>
    by_cases hidle : p.presenceState.state = .idle
    · rw [presenceCall, presenceNextPage_of_idle _ _ hidle]
      exact hd
    · rw [presenceCall, presenceNextPage_of_ne_idle h _ _ hidle]
      obtain ⟨m, rfl⟩ := h.exists_message hidle
      exact (turnPage_represents h _ _ hidle).displays_drawn PresenceState.noConfusion
  | acknowledge =>
    rw [presenceCall, presenceAcknowledge_eq h]
    exact (putAway_represents h 0).displays_cleared rfl
  | update =>
    rw [presenceCall, presenceUpdate_eq h]
    split_ifs
    · exact (putAway_represents h p.presenceDeadline).displays_cleared rfl
    · exact hd

/-- **From the first acknowledge on, the display agrees with the model** after every run. -/
theorem presenceRun_displays (pdMsToTicks : ℕ → TickType) (oled : Oled) (tick : TickType)
    (calls : List (TickType × PresenceCall)) :
    Displays (latestMessage (calls.map Prod.snd))
      (presenceRun pdMsToTicks oled ((tick, .acknowledge) :: calls)) := by
  have hstart := presenceRun_represents pdMsToTicks oled [(tick, .acknowledge)]
  have hfirst : Displays none (presenceRun pdMsToTicks oled [(tick, .acknowledge)]) := by
    rw [presenceRun, Machine.run_cons, presenceCall,
      presenceAcknowledge_eq (presenceStart_represents oled)]
    exact (putAway_represents (presenceStart_represents oled) 0).displays_cleared rfl
  refine (Machine.run_induction
    (I := fun calls p => Represents (latestMessage (calls.map Prod.snd)) p ∧
      Displays (latestMessage (calls.map Prod.snd)) p)
    ⟨hstart, hfirst⟩ (fun calls e ih => ?_) calls).2
  rw [List.map_append, latestMessage, Machine.run_append]
  exact ⟨presenceCall_represents ih.1 pdMsToTicks e.1 e.2,
    presenceCall_displays ih.1 ih.2 pdMsToTicks e.1 e.2⟩

end PresenceDevice
