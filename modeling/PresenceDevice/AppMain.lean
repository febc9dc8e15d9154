import PresenceDevice.PresenceScreen

/-!
# Two tasks

`app_main` starts the HTTP server, blanks the display and then polls the button forever. From the
moment the handler of `POST /message` is registered, the server task may show a message between any
two steps of the main task. The operations of the presence module hold its mutex throughout, so an
operation is one step; so is each sample of the button and each reading of the tick counter.

A run is a list of events, each of which lets one of the two tasks take a step. What a step does
for the outside is its `Action`.

## Main definitions

* `MainPc`, `Device`: where `app_main` is, its variables, and the shared state
* `DeviceEvent`, `deviceStep`, `Action`, `deviceAction`: the steps
* `deviceRun`, `deviceTrace`: runs

## Main results

* `deviceRun_represents`: the presence module keeps its invariant under any interleaving
-/

namespace PresenceDevice

/-- `PRESENCE_LONG_PRESS_THRESHOLD_MS`. -/
def presenceLongPressThresholdMs : ℕ := 1000

/-- The step that `app_main` takes next. -/
inductive MainPc
  | httpServerStart
  | startAcknowledge
  | update
  | sample
  | debounce
  | recordPress
  | measureRelease
  | acknowledge
  | nextPage
  deriving DecidableEq

/-- The main task with its variables `was_pressed` and `press_started`, whether the handler is
registered, and the presence module. -/
structure Device where
  pc : MainPc
  wasPressed : Bool
  pressStarted : TickType
  registered : Bool
  presence : Presence

/-- The main task takes a step, at a reading of the tick counter and with the button in some
position; or the handler, if it is registered, shows a message. -/
inductive DeviceEvent
  | main (tick : TickType) (pressed : Bool)
  | http (message : AgentMessage)

/-- What a step does: `pressAccepted` when `press_started` is recorded, `dispatched` when an
accepted release calls into the presence module. -/
inductive Action
  | internal
  | acknowledgedAtStart
  | pressAccepted
  | dispatched
  | shown (message : AgentMessage)
  deriving DecidableEq

/-- A step of `app_main`. The delays of the loop have no effect of their own. -/
def mainStep (pdMsToTicks : ℕ → TickType) (tick : TickType) (pressed : Bool) (d : Device) :
    Device :=
  match d.pc with
  | .httpServerStart => { d with registered := true, pc := .startAcknowledge }
  | .startAcknowledge =>
    { d with
      presence := presenceAcknowledge d.presence
      wasPressed := false
      pressStarted := 0
      pc := .update }
  | .update => { d with presence := presenceUpdate tick d.presence, pc := .sample }
  | .sample => { d with pc := if pressed ≠ d.wasPressed then .debounce else .update }
  | .debounce =>
    { d with
      pc := if pressed ≠ d.wasPressed then
          if pressed then .recordPress else .measureRelease
        else .update }
  | .recordPress => { d with pressStarted := tick, wasPressed := true, pc := .update }
  | .measureRelease =>
    { d with
      pc := if tick - d.pressStarted ≥ pdMsToTicks presenceLongPressThresholdMs then .acknowledge
        else .nextPage }
  | .acknowledge =>
    { d with presence := presenceAcknowledge d.presence, wasPressed := false, pc := .update }
  | .nextPage =>
    { d with
      presence := presenceNextPage pdMsToTicks tick d.presence
      wasPressed := false
      pc := .update }

/-- What a step of `app_main` does. -/
def mainAction (d : Device) : Action :=
  match d.pc with
  | .startAcknowledge => .acknowledgedAtStart
  | .recordPress => .pressAccepted
  | .acknowledge | .nextPage => .dispatched
  | .httpServerStart | .update | .sample | .debounce | .measureRelease => .internal

def deviceStep (pdMsToTicks : ℕ → TickType) (d : Device) : DeviceEvent → Device
  | .main tick pressed => mainStep pdMsToTicks tick pressed d
  | .http message =>
    if d.registered then { d with presence := presenceShowMessage (some message) d.presence }
    else d

def deviceAction (d : Device) : DeviceEvent → Action
  | .main _ _ => mainAction d
  | .http message => if d.registered then .shown message else .internal

/-- The device when `app_main` has initialised everything but the server. -/
def deviceStart (oled : Oled) : Device := ⟨.httpServerStart, false, 0, false, presenceStart oled⟩

/-- The device at the start of the loop, idle, with the server running. -/
def loopStart (oled : Oled) : Device :=
  ⟨.update, false, 0, true, presenceAcknowledge (presenceStart oled)⟩

def deviceRun (pdMsToTicks : ℕ → TickType) (d : Device) (events : List DeviceEvent) : Device :=
  Machine.run (deviceStep pdMsToTicks) d events

def deviceTrace (pdMsToTicks : ℕ → TickType) (d : Device) (events : List DeviceEvent) :
    List Action :=
  Machine.trace (deviceStep pdMsToTicks) deviceAction d events

/-- The message on display after one more action. -/
def nextShown (latest : Option AgentMessage) : Action → Option AgentMessage
  | .shown m => some m
  | _ => latest

/-- The last message shown. -/
def lastShown (actions : List Action) : Option AgentMessage := Machine.run nextShown none actions

variable {pdMsToTicks : ℕ → TickType} {d : Device} {events : List DeviceEvent} {e : DeviceEvent}

@[simp] theorem lastShown_concat {actions : List Action} {a : Action} :
    lastShown (actions ++ [a]) = nextShown (lastShown actions) a :=
  Machine.run_append ..

@[simp] theorem deviceRun_concat : deviceRun pdMsToTicks d (events ++ [e]) =
    deviceStep pdMsToTicks (deviceRun pdMsToTicks d events) e :=
  Machine.run_append ..

@[simp] theorem deviceTrace_concat : deviceTrace pdMsToTicks d (events ++ [e]) =
    deviceTrace pdMsToTicks d events ++ [deviceAction (deviceRun pdMsToTicks d events) e] :=
  Machine.trace_append ..

/-- The actions of a part of a run are the first actions of the run. -/
theorem deviceTrace_initialPart {seen : List DeviceEvent} (h : seen <+: events) :
    deviceTrace pdMsToTicks d seen <+: deviceTrace pdMsToTicks d events := by
  obtain ⟨more, rfl⟩ := h
  rw [deviceTrace, deviceTrace, Machine.trace_append]
  exact List.prefix_append ..

/-! ### The presence module under interleaving -/

variable {latest : Option AgentMessage}

/-- Every step keeps the invariant of the presence module. -/
theorem deviceStep_represents (h : Represents latest d.presence) (e : DeviceEvent) :
    Represents (nextShown latest (deviceAction d e)) (deviceStep pdMsToTicks d e).presence := by
  cases e with
  | http m =>
    rw [deviceStep, deviceAction]
    split_ifs
    · exact presenceCall_represents h pdMsToTicks 0 (.showMessage (some m))
    · exact h
  | main tick pressed =>
    rw [deviceStep, deviceAction, mainStep, mainAction]
    cases hpc : d.pc with
    | startAcknowledge | acknowledge =>
      exact presenceCall_represents h pdMsToTicks tick .acknowledge
    | update => exact presenceCall_represents h pdMsToTicks tick .update
    | nextPage => exact presenceCall_represents h pdMsToTicks tick .nextPage
    | httpServerStart | sample | debounce | recordPress | measureRelease => exact h

/-- **Under any interleaving** the presence module agrees with the last message shown. -/
theorem deviceRun_represents (pdMsToTicks : ℕ → TickType) (h : Represents none d.presence)
    (events : List DeviceEvent) :
    Represents (lastShown (deviceTrace pdMsToTicks d events))
      (deviceRun pdMsToTicks d events).presence := by
  refine Machine.trace_induction
    (I := fun actions (d : Device) => Represents (lastShown actions) d.presence) h
    (fun actions d e ih => ?_) events
  rw [lastShown_concat]
  exact deviceStep_represents ih e

/-- An acknowledge leaves the module idle. -/
theorem presenceAcknowledge_idle {p : Presence} (h : Represents latest p) :
    (presenceAcknowledge p).presenceState.state = .idle := by
  rw [presenceAcknowledge_eq h]
  rfl

/-- A press starts or continues the reading. -/
theorem presenceNextPage_ne_unread {p : Presence} (h : Represents latest p)
    (pdMsToTicks : ℕ → TickType) (tick : TickType) :
    (presenceNextPage pdMsToTicks tick p).presenceState.state ≠ .unread := by
  by_cases hidle : p.presenceState.state = .idle
  · rw [presenceNextPage_of_idle _ _ hidle, hidle]
    exact PresenceState.noConfusion
  · rw [presenceNextPage_of_ne_idle h _ _ hidle]
    exact PresenceState.noConfusion

/-- An update does not touch a message that has not been read. -/
theorem presenceUpdate_of_unread {p : Presence} (h : Represents latest p) (tick : TickType)
    (hunread : p.presenceState.state = .unread) : presenceUpdate tick p = p := by
  rw [presenceUpdate_eq h]
  split_ifs with hexp
  · rw [hexp.1] at hunread
    cases hunread
  · rfl

end PresenceDevice
