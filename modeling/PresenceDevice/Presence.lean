import Mathlib.Data.Nat.Digits.Defs
import PresenceDevice.Oled
import PresenceDevice.PresenceLayout
import PresenceDevice.PresenceState

/-!
# The presence module

`presence.c`: the current message, its layout, the page on display and the reading deadline. All
of it is guarded by one mutex, and every public operation holds that mutex from its first access
to its last, so each is one step of the model.

Character arrays are byte lists of the array's size, read up to the first NUL. Tick counts are
32-bit. The tick rate is configuration, so `pdMS_TO_TICKS` is a parameter of the operation that
uses it.

## Main definitions

* `utf8SafePrefix`, `copyBounded`: bounded copies of the message's strings
* `Presence`: the module's variables, together with the display it owns
* `presenceShowMessage`, `presenceNextPage`, `presenceAcknowledge`, `presenceUpdate`
-/

namespace PresenceDevice

abbrev TickType := BitVec 32

inductive EspErr
  | espOk
  | espErrNoMem
  deriving DecidableEq

/-- `AgentMessageLevel`. -/
inductive AgentMessageLevel
  | info
  | warning
  | attention
  deriving DecidableEq

/-- `AgentMessage`; `none` is a `NULL` string. -/
structure AgentMessage where
  source : Option CString
  title : Option CString
  body : Option CString
  level : AgentMessageLevel
  deriving DecidableEq

/-- `READING_TIMEOUT_MS`. -/
def readingTimeoutMs : ℕ := 10000

/-- `PRESENCE_MAX_PAGE_COUNT`. -/
def presenceMaxPageCount : ℕ :=
  (presenceMaxBodyLines + presenceBodyLinesPerPage - 1) / presenceBodyLinesPerPage

/-- `pdMS_TO_TICKS` at the configured rate of 100 Hz. -/
def pdMsToTicks100Hz (ms : ℕ) : TickType := BitVec.ofNat 32 (ms * 100 % 2 ^ 32 / 1000)

/-! ### Bounded copies -/

/-- The loop of `utf8_safe_prefix`: drop continuation bytes from the end. -/
def utf8SafePrefixLoop (text : CString) : ℕ → ℕ
  | 0 => 0
  | length + 1 =>
    if text.charAt length &&& 0xC0 = 0x80 then utf8SafePrefixLoop text length else length + 1

/-- `utf8_safe_prefix`. -/
def utf8SafePrefix (text : CString) (maxBytes : ℕ) : ℕ :=
  utf8SafePrefixLoop text (text.strnlen maxBytes)

/-- `memcpy` of the first `length` bytes of `source` to the start of an array. -/
def memcpy (destination source : List UInt8) (length : ℕ) : List UInt8 :=
  source.take length ++ destination.drop length

/-- `copy_bounded`: the array after the call. -/
def copyBounded (destination : List UInt8) (capacity : ℕ) (source : Option CString) :
    List UInt8 :=
  match source with
  | none => if capacity > 0 then destination.set 0 0 else destination
  | some source =>
    if capacity = 0 then destination
    else
      let length := utf8SafePrefix source (capacity - 1)
      (memcpy destination source.bytes length).set length 0

/-! ### The module's variables -/

structure Presence where
  presenceMutex : Bool
  presenceState : PresenceStateModel
  presenceDeadline : TickType
  presenceCurrentPage : ℕ
  presencePageCount : ℕ
  presenceLineCount : ℕ
  presenceLines : ℕ → PresenceLine
  presenceSource : List UInt8
  presenceTitle : List UInt8
  presenceBody : List UInt8
  oled : Oled

/-- Static storage before `presence_init`: everything zero, the display as it was found. -/
def Presence.static (oled : Oled) : Presence where
  presenceMutex := false
  presenceState := ⟨.idle, 0, 0⟩
  presenceDeadline := 0
  presenceCurrentPage := 0
  presencePageCount := 0
  presenceLineCount := 0
  presenceLines := fun _ => ⟨0, 0⟩
  presenceSource := List.replicate (presenceLineChars + 1) 0
  presenceTitle := List.replicate (presenceLineChars + 1) 0
  presenceBody := List.replicate (presenceBodyMaxBytes + 1) 0
  oled := oled

/-- `presence_init`, given whether the mutex could be created. -/
def presenceInit (created : Bool) (p : Presence) : EspErr × Presence :=
  let p := { p with presenceMutex := created }
  if !created then (.espErrNoMem, p)
  else
    (.espOk, { p with
      presenceState := presenceStateInit
      presenceDeadline := 0
      presenceCurrentPage := 0
      presencePageCount := 1 })

/-! ### Drawing -/

/-- `presence_clear_locked`. -/
def presenceClearLocked (p : Presence) : Presence :=
  { p with oled := oledFlush { p.oled with oledBuffer := oledClear } }

/-- The local `line` of `presence_draw_locked` for one of the three body rows. -/
def bodyRow (p : Presence) (index : ℕ) : CString :=
  let lineIndex := p.presenceCurrentPage * presenceBodyLinesPerPage + index
  if lineIndex < p.presenceLineCount then
    let bodyLine := p.presenceLines lineIndex
    CString.ofBuffer ((p.presenceBody.drop bodyLine.start).take bodyLine.length ++ [0])
  else CString.ofBuffer [0]

/-- A number printed with `%u`. -/
def decimal (n : ℕ) : List UInt8 := (Nat.toDigits 10 n).map Char.toUInt8

/-- The local `page_indicator`: `snprintf` of `"%u/%u"` into 12 bytes. -/
def pageIndicator (currentPage pageCount : ℕ) : CString :=
  CString.ofBuffer ((decimal (currentPage + 1) ++ '/'.toUInt8 :: decimal pageCount).take 11 ++ [0])

/-- The frame `presence_draw_locked` draws. -/
def presenceFrame (p : Presence) : Frame :=
  let buffer := oledClear
  let buffer := oledDrawText 0 0 (CString.ofBuffer p.presenceSource) buffer
  let buffer := oledDrawText 0 2 (CString.ofBuffer p.presenceTitle) buffer
  let buffer := (List.range presenceBodyLinesPerPage).foldl (fun buffer index =>
    oledDrawText 0 ((4 + index) % 256) (bodyRow p index) buffer) buffer
  if p.presencePageCount > 1 then
    oledDrawText 0 7 (pageIndicator p.presenceCurrentPage p.presencePageCount) buffer
  else buffer

/-- `presence_draw_locked`. -/
def presenceDrawLocked (p : Presence) : Presence :=
  { p with oled := oledFlush { p.oled with oledBuffer := presenceFrame p } }

/-! ### The public operations -/

/-- `presence_show_message`. -/
def presenceShowMessage (message : Option AgentMessage) (p : Presence) : Presence :=
  match message with
  | none => p
  | some message =>
    if !p.presenceMutex then p
    else
      let p := { p with
        presenceSource := copyBounded p.presenceSource (presenceLineChars + 1) message.source
        presenceTitle := copyBounded p.presenceTitle (presenceLineChars + 1) message.title
        presenceBody := copyBounded p.presenceBody (presenceBodyMaxBytes + 1) message.body }
      let layout := presenceLayoutBody (some (CString.ofBuffer p.presenceBody))
        (some p.presenceLines) presenceMaxBodyLines
      let p := { p with
        presenceLines := layout.1.getD p.presenceLines
        presenceLineCount := layout.2 }
      let pageCount := (p.presenceLineCount + presenceBodyLinesPerPage - 1)
        / presenceBodyLinesPerPage % 2 ^ 16
      let pageCount :=
        if pageCount = 0 ∨ pageCount > presenceMaxPageCount then 1 else pageCount
      let model := presenceStateMessage pageCount
      presenceDrawLocked { p with
        presenceState := model
        presenceCurrentPage := model.currentPage
        presencePageCount := model.pageCount
        presenceDeadline := 0 }

/-- `presence_next_page`, called when the tick counter shows `tick`. -/
def presenceNextPage (pdMsToTicks : ℕ → TickType) (tick : TickType) (p : Presence) : Presence :=
  if !p.presenceMutex then p
  else if p.presenceState.state ≠ .idle then
    let model := presenceStateShortPress p.presenceState
    presenceDrawLocked { p with
      presenceState := model
      presenceCurrentPage := model.currentPage
      presenceDeadline := tick + pdMsToTicks readingTimeoutMs }
  else p

/-- `presence_acknowledge`. -/
def presenceAcknowledge (p : Presence) : Presence :=
  if !p.presenceMutex then p
  else
    presenceClearLocked { p with
      presenceState := presenceStateLongPress p.presenceState
      presenceDeadline := 0 }

/-- `presence_update`, called when the tick counter shows `tick`. -/
def presenceUpdate (tick : TickType) (p : Presence) : Presence :=
  if !p.presenceMutex then p
  else if presenceStateIsReading p.presenceState ∧ (tick - p.presenceDeadline).toInt ≥ 0 then
    presenceClearLocked { p with presenceState := presenceStateTimeout p.presenceState }
  else p

end PresenceDevice
