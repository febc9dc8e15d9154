import PresenceDevice.Library.Machine
import PresenceDevice.StoredMessage

/-!
# Runs of the presence module

Other tasks see the presence module through four operations, which they may call in any order and
at any time. A run is a list of such calls, each with the reading of the tick counter it finds.

`Represents` is the invariant that ties the module's variables to the last message shown. What an
operation does is stated once, in its `_spec` lemma, and the invariant of runs follows from these.

## Main definitions

* `PresenceCall`, `presenceCall`: the calls, and the step each of them takes
* `latestMessage`: the last message shown in a run
* `Represents`: the invariant

## Main results

* `presenceRun_represents`: the invariant holds after every run
* `presenceRun_representation`: the bounds it implies, after at least one message
-/

namespace PresenceDevice

inductive PresenceCall
  | showMessage (message : Option AgentMessage)
  | nextPage
  | acknowledge
  | update

/-- One call, at a reading of the tick counter. -/
def presenceCall (pdMsToTicks : ℕ → TickType) (tick : TickType) (p : Presence) :
    PresenceCall → Presence
  | .showMessage message => presenceShowMessage message p
  | .nextPage => presenceNextPage pdMsToTicks tick p
  | .acknowledge => presenceAcknowledge p
  | .update => presenceUpdate tick p

/-- The module after a successful `presence_init`, with the display in any state. -/
def presenceStart (oled : Oled) : Presence := (presenceInit true (.static oled)).2

/-- A run from there. -/
def presenceRun (pdMsToTicks : ℕ → TickType) (oled : Oled)
    (calls : List (TickType × PresenceCall)) : Presence :=
  Machine.run (fun p e => presenceCall pdMsToTicks e.1 p e.2) (presenceStart oled) calls

/-- The message on record after one more call. -/
def nextMessage (latest : Option AgentMessage) : PresenceCall → Option AgentMessage
  | .showMessage (some m) => some m
  | _ => latest

/-- The last message shown. -/
def latestMessage (calls : List PresenceCall) : Option AgentMessage :=
  Machine.run nextMessage none calls

/-! ### The invariant -/

/-- The variables hold the message `m`. -/
structure Holds (m : AgentMessage) (p : Presence) : Prop where
  source : CString.ofBuffer p.presenceSource = m.storedSource
  title : CString.ofBuffer p.presenceTitle = m.storedTitle
  body : CString.ofBuffer p.presenceBody = m.storedBody
  lines : (List.range p.presenceLineCount).map p.presenceLines = m.lines
  page_count : p.presenceState.pageCount = m.pageCount
  current_page : p.presenceState.currentPage < m.pageCount

/-- The variables agree with each other and with the last message shown. -/
structure Represents (latest : Option AgentMessage) (p : Presence) : Prop where
  mutex : p.presenceMutex = true
  source_length : p.presenceSource.length = presenceLineChars + 1
  title_length : p.presenceTitle.length = presenceLineChars + 1
  body_length : p.presenceBody.length = presenceBodyMaxBytes + 1
  shadow_page : p.presenceCurrentPage = p.presenceState.currentPage
  shadow_count : p.presencePageCount = p.presenceState.pageCount
  none_shown : latest = none → p.presenceState = presenceStateInit
  holds : ∀ m, latest = some m → Holds m p

variable {latest : Option AgentMessage} {p : Presence} {m : AgentMessage}

theorem Holds.line_count (h : Holds m p) : p.presenceLineCount = m.lines.length := by
  rw [← h.lines, List.length_map, List.length_range]

theorem Holds.getElem?_lines (h : Holds m p) {i : ℕ} (hi : i < p.presenceLineCount) :
    m.lines[i]? = some (p.presenceLines i) := by
  rw [← h.lines, List.getElem?_map, List.getElem?_range hi]
  rfl

/-- What the invariant says does not depend on the display. -/
theorem Represents.withOled (h : Represents latest p) (oled : Oled) :
    Represents latest { p with oled := oled } :=
  { h with
    holds := fun m hm => { h.holds m hm with } }

theorem Represents.drawn (h : Represents latest p) : Represents latest (presenceDrawLocked p) :=
  h.withOled _

theorem Represents.cleared (h : Represents latest p) : Represents latest (presenceClearLocked p) :=
  h.withOled _

/-- Without a message nothing is shown. -/
theorem Represents.exists_message (h : Represents latest p)
    (hstate : p.presenceState.state ≠ .idle) : ∃ m, latest = some m := by
  rw [← Option.ne_none_iff_exists']
  intro hnone
  rw [h.none_shown hnone] at hstate
  exact hstate rfl

theorem presenceStart_represents (oled : Oled) : Represents none (presenceStart oled) where
  mutex := rfl
  source_length := List.length_replicate
  title_length := List.length_replicate
  body_length := List.length_replicate
  shadow_page := rfl
  shadow_count := rfl
  none_shown _ := rfl
  holds m hm := by cases hm

/-! ### The operations -/

/-- The array that `presence_layout_body` fills, read back as the list of its lines. -/
theorem map_range_layoutLines (body : CString) (lines : ℕ → PresenceLine) (maxLines : ℕ) :
    let layout := presenceLayoutBody (some body) (some lines) maxLines
    (List.range layout.2).map (layout.1.getD lines) = layoutLines layout := by
  simp only [presenceLayoutBody]
  split_ifs <;> rfl

/-- The page count of a stored message needs no fallback and loses nothing to its cast. -/
theorem pageCount_unchanged (m : AgentMessage) :
    (m.lines.length + presenceBodyLinesPerPage - 1) / presenceBodyLinesPerPage % 2 ^ 16
        = m.pageCount ∧ ¬ (m.pageCount = 0 ∨ m.pageCount > presenceMaxPageCount) := by
  have hpos := m.pageCount_pos
  have hle := m.pageCount_le
  have hmax : presenceMaxPageCount < 2 ^ 16 := by decide
  rw [← m.pageCount_eq, Nat.mod_eq_of_lt (by omega)]
  exact ⟨rfl, by omega⟩

/-- The variables when a message has been stored and is about to be drawn. -/
def storeMessage (m : AgentMessage) (p : Presence) : Presence :=
  let layout := presenceLayoutBody (some m.storedBody) (some p.presenceLines) presenceMaxBodyLines
  { p with
    presenceSource := copyBounded p.presenceSource (presenceLineChars + 1) m.source
    presenceTitle := copyBounded p.presenceTitle (presenceLineChars + 1) m.title
    presenceBody := copyBounded p.presenceBody (presenceBodyMaxBytes + 1) m.body
    presenceLines := layout.1.getD p.presenceLines
    presenceLineCount := layout.2
    presenceState := ⟨.unread, 0, m.pageCount⟩
    presenceCurrentPage := 0
    presencePageCount := m.pageCount
    presenceDeadline := 0 }

theorem storeMessage_represents (h : Represents latest p) (m : AgentMessage) :
    Represents (some m) (storeMessage m p) where
  mutex := h.mutex
  source_length := by
    rw [← h.source_length]
    exact length_copyBounded m.source (Nat.succ_pos _) h.source_length.ge
  title_length := by
    rw [← h.title_length]
    exact length_copyBounded m.title (Nat.succ_pos _) h.title_length.ge
  body_length := by
    rw [← h.body_length]
    exact length_copyBounded m.body (Nat.succ_pos _) h.body_length.ge
  shadow_page := rfl
  shadow_count := rfl
  none_shown hnone := by cases hnone
  holds := by
    rintro _ ⟨⟩
    exact
      { source := ofBuffer_copyBounded m.source (Nat.succ_pos _) h.source_length.ge
        title := ofBuffer_copyBounded m.title (Nat.succ_pos _) h.title_length.ge
        body := ofBuffer_copyBounded m.body (Nat.succ_pos _) h.body_length.ge
        lines := (map_range_layoutLines _ _ _).trans (m.layoutLines_storedBody _)
        page_count := rfl
        current_page := m.pageCount_pos }

/-- **`presence_show_message` stores the message and draws it.** -/
theorem presenceShowMessage_some (h : Represents latest p) (m : AgentMessage) :
    presenceShowMessage (some m) p = presenceDrawLocked (storeMessage m p) := by
  have hbody : CString.ofBuffer (copyBounded p.presenceBody (presenceBodyMaxBytes + 1) m.body) =
      m.storedBody := ofBuffer_copyBounded m.body (Nat.succ_pos _) h.body_length.ge
  have hcount : (presenceLayoutBody (some m.storedBody) (some p.presenceLines)
      presenceMaxBodyLines).2 = m.lines.length := by
    rw [← m.layoutLines_storedBody p.presenceLines, ← map_range_layoutLines, List.length_map,
      List.length_range]
  obtain ⟨hcast, hfallback⟩ := pageCount_unchanged m
  have hmodel : presenceStateMessage m.pageCount = ⟨.unread, 0, m.pageCount⟩ := by
    rw [presenceStateMessage, if_neg m.pageCount_pos.ne']
  simp only [presenceShowMessage, h.mutex, Bool.not_true, Bool.false_eq_true, if_false, hbody,
    hcount, hcast, if_neg hfallback, hmodel, storeMessage]

theorem presenceNextPage_of_idle (pdMsToTicks : ℕ → TickType) (tick : TickType)
    (hidle : p.presenceState.state = .idle) : presenceNextPage pdMsToTicks tick p = p := by
  unfold presenceNextPage
  split_ifs with hmutex hstate
  · rfl
  · exact absurd hidle hstate
  · rfl

theorem presenceStateShortPress_of_ne_idle {model : PresenceStateModel}
    (hstate : model.state ≠ .idle) (hpage : model.currentPage < model.pageCount)
    (hcount : model.pageCount ≤ presenceMaxPageCount) :
    presenceStateShortPress model =
      ⟨.reading, min (model.currentPage + 1) (model.pageCount - 1), model.pageCount⟩ := by
  have hmax : presenceMaxPageCount < 2 ^ 16 := by decide
  rw [presenceStateShortPress, if_neg hstate]
  split_ifs with hmore
  · rw [Nat.mod_eq_of_lt (by omega), Nat.min_eq_left (by omega)]
  · rw [Nat.min_eq_right (by omega), show model.pageCount - 1 = model.currentPage by omega]

/-- The variables when a press has been handled and its page is about to be drawn. -/
def turnPage (pdMsToTicks : ℕ → TickType) (tick : TickType) (p : Presence) : Presence :=
  let page := min (p.presenceState.currentPage + 1) (p.presenceState.pageCount - 1)
  { p with
    presenceState := ⟨.reading, page, p.presenceState.pageCount⟩
    presenceCurrentPage := page
    presenceDeadline := tick + pdMsToTicks readingTimeoutMs }

theorem turnPage_represents (h : Represents latest p) (pdMsToTicks : ℕ → TickType)
    (tick : TickType) (hstate : p.presenceState.state ≠ .idle) :
    Represents latest (turnPage pdMsToTicks tick p) :=
  { h with
    shadow_page := rfl
    none_shown := fun hnone =>
      absurd (congrArg PresenceStateModel.state (h.none_shown hnone)) hstate
    holds := fun m hm =>
      { h.holds m hm with
        current_page := by
          have hcurrent := (h.holds m hm).current_page
          have hcount := (h.holds m hm).page_count
          exact Nat.lt_of_le_of_lt (Nat.min_le_right _ _) (by omega) } }

/-- **`presence_next_page` turns the page and draws it**, unless there is nothing to read. -/
theorem presenceNextPage_of_ne_idle (h : Represents latest p) (pdMsToTicks : ℕ → TickType)
    (tick : TickType) (hstate : p.presenceState.state ≠ .idle) :
    presenceNextPage pdMsToTicks tick p = presenceDrawLocked (turnPage pdMsToTicks tick p) := by
  obtain ⟨m, hm⟩ := h.exists_message hstate
  have hholds := h.holds m hm
  have hpress := presenceStateShortPress_of_ne_idle hstate
    (hholds.page_count ▸ hholds.current_page) (hholds.page_count ▸ m.pageCount_le)
  rw [presenceNextPage, if_neg (by simp [h.mutex]), if_pos hstate, hpress]
  rfl

/-- The variables when the message has been put away. -/
def putAway (p : Presence) : Presence :=
  { p with presenceState := { p.presenceState with state := .idle } }

theorem putAway_represents (h : Represents latest p) (deadline : TickType) :
    Represents latest { putAway p with presenceDeadline := deadline } :=
  { h with
    none_shown := fun hnone => by
      show { p.presenceState with state := .idle } = _
      rw [h.none_shown hnone]
      rfl
    holds := fun m hm => { h.holds m hm with } }

theorem presenceAcknowledge_eq (h : Represents latest p) :
    presenceAcknowledge p = presenceClearLocked { putAway p with presenceDeadline := 0 } := by
  rw [presenceAcknowledge, if_neg (by simp [h.mutex])]
  rfl

/-- The condition under which `presence_update` ends the reading. -/
def ReadingExpired (tick : TickType) (p : Presence) : Prop :=
  p.presenceState.state = .reading ∧ 0 ≤ (tick - p.presenceDeadline).toInt

instance (tick : TickType) (p : Presence) : Decidable (ReadingExpired tick p) :=
  inferInstanceAs (Decidable (_ ∧ _))

theorem presenceUpdate_eq (h : Represents latest p) (tick : TickType) :
    presenceUpdate tick p =
      if ReadingExpired tick p then presenceClearLocked (putAway p) else p := by
  have hguard : (presenceStateIsReading p.presenceState ∧
      (tick - p.presenceDeadline).toInt ≥ 0) ↔ ReadingExpired tick p := by
    rw [presenceStateIsReading, decide_eq_true_eq]
    rfl
  rw [presenceUpdate, if_neg (by simp [h.mutex])]
  by_cases hexp : ReadingExpired tick p
  · rw [if_pos (hguard.mpr hexp), if_pos hexp, presenceStateTimeout, if_pos hexp.1]
    rfl
  · rw [if_neg (mt hguard.mp hexp), if_neg hexp]

/-! ### Runs -/

/-- **Every call keeps the invariant.** -/
theorem presenceCall_represents (h : Represents latest p) (pdMsToTicks : ℕ → TickType)
    (tick : TickType) (call : PresenceCall) :
    Represents (nextMessage latest call) (presenceCall pdMsToTicks tick p call) := by
  cases call with
  | showMessage message =>
    cases message with
    | none => exact h
    | some m =>
      rw [presenceCall, presenceShowMessage_some h]
      exact (storeMessage_represents h m).drawn
  | nextPage =>
    by_cases hidle : p.presenceState.state = .idle
    · rw [presenceCall, presenceNextPage_of_idle _ _ hidle]
      exact h
    · rw [presenceCall, presenceNextPage_of_ne_idle h _ _ hidle]
      exact (turnPage_represents h _ _ hidle).drawn
  | acknowledge =>
    rw [presenceCall, presenceAcknowledge_eq h]
    exact (putAway_represents h 0).cleared
  | update =>
    rw [presenceCall, presenceUpdate_eq h]
    split_ifs
    · exact (putAway_represents h p.presenceDeadline).cleared
    · exact h

/-- **The invariant holds after every run.** -/
theorem presenceRun_represents (pdMsToTicks : ℕ → TickType) (oled : Oled)
    (calls : List (TickType × PresenceCall)) :
    Represents (latestMessage (calls.map Prod.snd)) (presenceRun pdMsToTicks oled calls) := by
  refine Machine.run_induction
    (I := fun calls p => Represents (latestMessage (calls.map Prod.snd)) p)
    (presenceStart_represents oled) (fun calls e ih => ?_) calls
  rw [List.map_append, latestMessage, Machine.run_append]
  exact presenceCall_represents ih pdMsToTicks e.1 e.2

/-! ### The bounds -/

/-- What the module's variables satisfy while a message is on record. -/
structure Representation (p : Presence) : Prop where
  body_array : p.presenceBody.length = presenceBodyMaxBytes + 1 ∧ 0 ∈ p.presenceBody
  body_strlen : (CString.ofBuffer p.presenceBody).strlen ≤ presenceBodyMaxBytes
  line_count : 1 ≤ p.presenceLineCount ∧ p.presenceLineCount ≤ presenceMaxBodyLines ∧
    presenceMaxBodyLines = 512
  /-- The loop stopped at the end of the body, with room for another line. -/
  loop_end : ∀ lines,
    let s := layoutLoop (CString.ofBuffer p.presenceBody) lines presenceMaxBodyLines
    s.position = (CString.ofBuffer p.presenceBody).strlen ∧ s.lineCount < presenceMaxBodyLines
  /-- The lines are those of the layout, and none was truncated by its casts. -/
  layout : LaidOut (CString.ofBuffer p.presenceBody)
    ((List.range p.presenceLineCount).map p.presenceLines)
  page_count : p.presencePageCount = p.presenceLineCount ⌈/⌉ presenceBodyLinesPerPage
  page_bounds : 1 ≤ p.presencePageCount ∧ p.presencePageCount ≤ presenceMaxPageCount ∧
    presenceMaxPageCount = 171
  /-- The 16-bit cast of the page count is exact, and the fallback is not taken. -/
  page_cast : (p.presenceLineCount + presenceBodyLinesPerPage - 1) / presenceBodyLinesPerPage
      % 2 ^ 16 = p.presencePageCount ∧
    ¬ (p.presencePageCount = 0 ∨ p.presencePageCount > presenceMaxPageCount)
  model : p.presenceState.pageCount = p.presencePageCount ∧
    p.presenceState.currentPage = p.presenceCurrentPage
  current_page : p.presenceCurrentPage < p.presencePageCount
  lines_inside : ∀ i < p.presenceLineCount, (p.presenceLines i).length ≤ presenceLineChars ∧
    (p.presenceLines i).start + (p.presenceLines i).length
      ≤ (CString.ofBuffer p.presenceBody).strlen
  /-- Drawing a line reads inside `presence_body` and writes inside `line`. -/
  memcpy_inside : ∀ i < p.presenceLineCount,
    (p.presenceLines i).start + (p.presenceLines i).length ≤ p.presenceBody.length ∧
      (p.presenceLines i).length < presenceLineChars + 1

theorem Represents.representation (h : Represents (some m) p) : Representation p := by
  have hholds := h.holds m rfl
  have hcount : p.presencePageCount = m.pageCount := by rw [h.shadow_count, hholds.page_count]
  have hlaid : LaidOut (CString.ofBuffer p.presenceBody)
      ((List.range p.presenceLineCount).map p.presenceLines) := by
    rw [hholds.body, hholds.lines]
    exact m.laidOut_lines
  have hmem : ∀ i < p.presenceLineCount,
      p.presenceLines i ∈ (List.range p.presenceLineCount).map p.presenceLines :=
    fun i hi => List.mem_map_of_mem (List.mem_range.mpr hi)
  constructor
  case body_array =>
    refine ⟨h.body_length, CString.zero_mem_of_strlen_lt ?_⟩
    rw [hholds.body, h.body_length]
    exact Nat.lt_succ_of_le m.storedBody_strlen_le
  case body_strlen => exact hholds.body ▸ m.storedBody_strlen_le
  case line_count =>
    rw [hholds.line_count]
    exact ⟨m.length_lines_pos, m.length_lines_le, rfl⟩
  case loop_end =>
    intro lines
    rw [hholds.body]
    exact ⟨layoutLoop_position lines m.storedBody_strlen_lt,
      layoutLoop_lineCount_lt lines m.storedBody_strlen_lt⟩
  case layout => exact hlaid
  case page_count => rw [hcount, hholds.line_count, AgentMessage.pageCount]
  case page_bounds =>
    rw [hcount]
    exact ⟨m.pageCount_pos, m.pageCount_le, by decide⟩
  case page_cast =>
    rw [hcount, hholds.line_count]
    exact pageCount_unchanged m
  case model => exact ⟨h.shadow_count.symm, h.shadow_page.symm⟩
  case current_page =>
    rw [h.shadow_page, hcount]
    exact hholds.current_page
  case lines_inside =>
    intro i hi
    exact ⟨(hlaid.goodLine _ (hmem i hi)).width, hlaid.inside _ (hmem i hi)⟩
  case memcpy_inside =>
    intro i hi
    have hin := hlaid.inside _ (hmem i hi)
    rw [hholds.body] at hin
    refine ⟨hin.trans (m.storedBody_strlen_le.trans ?_),
      Nat.lt_succ_of_le (hlaid.goodLine _ (hmem i hi)).width⟩
    rw [h.body_length]
    exact Nat.le_succ _

/-- Once a message has been shown there is a last one. -/
theorem exists_latestMessage {calls : List PresenceCall} (h : .showMessage (some m) ∈ calls) :
    ∃ m, latestMessage calls = some m := by
  induction calls using List.reverseRecOn with
  | nil => cases h
  | append_singleton calls call ih =>
    rw [latestMessage, Machine.run_append]
    change ∃ m, nextMessage (latestMessage calls) call = some m
    rcases List.mem_append.mp h with h | h
    · obtain ⟨m', hm'⟩ := ih h
      cases call with
      | showMessage message => cases message with
        | none => exact ⟨m', hm'⟩
        | some m'' => exact ⟨m'', rfl⟩
      | nextPage | acknowledge | update => exact ⟨m', hm'⟩
    · obtain rfl := List.mem_singleton.mp h
      exact ⟨m, rfl⟩

/-- **After a message, the bounds hold after every run.** -/
theorem presenceRun_representation (pdMsToTicks : ℕ → TickType) (oled : Oled)
    (calls : List (TickType × PresenceCall)) (m : AgentMessage)
    (hm : .showMessage (some m) ∈ calls.map Prod.snd) :
    Representation (presenceRun pdMsToTicks oled calls) := by
  have h := presenceRun_represents pdMsToTicks oled calls
  obtain ⟨m', hm'⟩ := exists_latestMessage hm
  rw [hm'] at h
  exact h.representation

/-- A message of one line. -/
def buildMessage : AgentMessage where
  source := some (.ofString "agent")
  title := some (.ofString "Build")
  body := some (.ofString "done")
  level := .info

theorem presenceRun_representation_buildMessage :
    Representation (presenceRun pdMsToTicks100Hz oledPowerUp
      [(5, .showMessage (some buildMessage)), (7, .nextPage)]) :=
  presenceRun_representation pdMsToTicks100Hz oledPowerUp _ buildMessage (List.mem_cons_self ..)

end PresenceDevice
