import Mathlib.Algebra.Group.Nat.Defs

/-!
# The presence state machine

`presence_state.c`: whether a message is waiting, being read or gone, and which of its pages is
shown. The page counters are 16-bit; the guard of `presence_state_short_press` is evaluated in
`int`, where it cannot wrap.
-/

namespace PresenceDevice

inductive PresenceState
  | idle
  | unread
  | reading
  deriving DecidableEq

structure PresenceStateModel where
  state : PresenceState
  currentPage : ℕ
  pageCount : ℕ
  deriving DecidableEq

/-- `presence_state_init`. -/
def presenceStateInit : PresenceStateModel := ⟨.idle, 0, 1⟩

/-- `presence_state_message`; the old model is overwritten field by field. -/
def presenceStateMessage (pageCount : ℕ) : PresenceStateModel where
  state := .unread
  currentPage := 0
  pageCount := if pageCount = 0 then 1 else pageCount

/-- `presence_state_short_press`. -/
def presenceStateShortPress (model : PresenceStateModel) : PresenceStateModel :=
  if model.state = .idle then model
  else if model.currentPage + 1 < model.pageCount then
    { model with state := .reading, currentPage := (model.currentPage + 1) % 2 ^ 16 }
  else { model with state := .reading }

/-- `presence_state_long_press`. -/
def presenceStateLongPress (model : PresenceStateModel) : PresenceStateModel :=
  { model with state := .idle }

/-- `presence_state_timeout`. -/
def presenceStateTimeout (model : PresenceStateModel) : PresenceStateModel :=
  if model.state = .reading then { model with state := .idle } else model

/-- `presence_state_is_reading`. -/
def presenceStateIsReading (model : PresenceStateModel) : Bool := model.state = .reading

end PresenceDevice
