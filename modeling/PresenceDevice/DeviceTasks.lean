import PresenceDevice.DevicePanel
import PresenceDevice.Library.Lock

/-!
# Two tasks and a mutex

In `AppMain` an operation of the presence module is one step. Here it is what the source has: a
task waits for the mutex, executes the statements of the operation one by one, down to the single
bytes that go to the panel, and gives the mutex back; the other task may run between any two of
them. Nothing is lost by calling the operation one step.

A message that has been posted waits with the server task until its handler has shown it.

## Main definitions

* `Task`, `TaskControl`, `TaskEvent`: the tasks, their own variables, and what they do on their own
* `deviceTasks`: the two tasks with the programs they execute under the mutex
* `MatchesRun`, `OnPanel`: what is shown of their runs

## Main results

* `deviceTasks_refines`: every run of statements is a run of `AppMain`
* `deviceTasks_onPanel`: the panel is at most on the way from one page to the next
* `deviceTasks_shows`: a posted message gets shown
-/

namespace PresenceDevice

open Critical

inductive Task
  | main
  | server
  deriving DecidableEq

/-- What the tasks have to themselves: the variables of `app_main`, whether the handler is
registered, and the message that the server task is about to show. -/
structure TaskControl where
  pc : MainPc
  wasPressed : Bool
  pressStarted : TickType
  registered : Bool
  pending : Option AgentMessage

/-- A step without the mutex: of `app_main`, at a reading of the tick counter and with the button in
some position; or the arrival of a message. -/
inductive TaskEvent
  | main (tick : TickType) (pressed : Bool)
  | post (message : AgentMessage)

def TaskEvent.owner : TaskEvent → Task
  | .main _ _ => .main
  | .post _ => .server

/-- A step of `app_main` without the mutex. Where it calls the presence module it waits. -/
def mainOutside (pdMsToTicks : ℕ → TickType) (tick : TickType) (pressed : Bool) (g : TaskControl) :
    TaskControl :=
  match g.pc with
  | .httpServerStart => { g with registered := true, pc := .startAcknowledge }
  | .sample => { g with pc := if pressed ≠ g.wasPressed then .debounce else .update }
  | .debounce =>
    { g with
      pc := if pressed ≠ g.wasPressed then
          if pressed then .recordPress else .measureRelease
        else .update }
  | .recordPress => { g with pressStarted := tick, wasPressed := true, pc := .update }
  | .measureRelease =>
    { g with
      pc := if tick - g.pressStarted ≥ pdMsToTicks presenceLongPressThresholdMs then .acknowledge
        else .nextPage }
  | .startAcknowledge | .update | .acknowledge | .nextPage => g

/-- The server task has one request at a time. -/
def taskOutside (pdMsToTicks : ℕ → TickType) (g : TaskControl) : TaskEvent → TaskControl
  | .main tick pressed => mainOutside pdMsToTicks tick pressed g
  | .post message =>
    if g.registered ∧ g.pending = none then { g with pending := some message } else g

/-- The handler's call of `presence_show_message`. -/
def handlerSection (message : AgentMessage) : Section Action := do
  presenceShowMessageSection message
  pure (.shown message)

/-- The operation that a task has come to, with what it does for the outside. -/
def taskEnter (pdMsToTicks : ℕ → TickType) (g : TaskControl) : Task → Option (Section Action)
  | .main =>
    match g.pc with
    | .startAcknowledge => some do
        presenceAcknowledgeSection
        pure .acknowledgedAtStart
    | .update => some do
        presenceUpdateSection
        pure .internal
    | .acknowledge => some do
        presenceAcknowledgeSection
        pure .dispatched
    | .nextPage => some do
        presenceNextPageSection pdMsToTicks
        pure .dispatched
    | .httpServerStart | .sample | .debounce | .recordPress | .measureRelease => none
  | .server => g.pending.map handlerSection

/-- A task after its operation. -/
def taskLeave (g : TaskControl) : Task → TaskControl
  | .main =>
    match g.pc with
    | .startAcknowledge => { g with wasPressed := false, pressStarted := 0, pc := .update }
    | .update => { g with pc := .sample }
    | .acknowledge | .nextPage => { g with wasPressed := false, pc := .update }
    | .httpServerStart | .sample | .debounce | .recordPress | .measureRelease => g
  | .server => { g with pending := none }

/-- The device as two tasks that share the presence module under its mutex. -/
def deviceTasks (pdMsToTicks : ℕ → TickType) :
    LockSystem Task TaskControl TaskEvent Presence TickType Action where
  owner := TaskEvent.owner
  outside := taskOutside pdMsToTicks
  enter t g := taskEnter pdMsToTicks g t
  leave t _ g := taskLeave g t
  stable t g e hne := by
    cases e with
    | main tick pressed =>
      cases t with
      | main => exact absurd rfl hne
      | server =>
        simp only [taskEnter, taskOutside, mainOutside]
        cases g.pc <;> rfl
    | post message =>
      cases t with
      | server => exact absurd rfl hne
      | main =>
        simp only [taskEnter, taskOutside]
        split_ifs <;> rfl

/-- The tasks when `app_main` has initialised everything but the server. -/
def tasksStart : TaskControl := ⟨.httpServerStart, false, 0, false, none⟩

/-- The device with an operation as one step. -/
def TaskControl.device (g : TaskControl) (p : Presence) : Device :=
  ⟨g.pc, g.wasPressed, g.pressStarted, g.registered, p⟩

/-- The operations among everything completed. -/
def operations (done : List (LockSystem.Completed Task TaskEvent Action)) : List Action :=
  (done.filterMap fun
    | .outside _ => none
    | .program _ a => some a).filter Action.isOperation

variable {pdMsToTicks : ℕ → TickType} {g : TaskControl} {p p' : Presence} {oled : Oled}
  {done : List (LockSystem.Completed Task TaskEvent Action)} {t : Task} {a : Action}
  {ops : List Action} {P : Section Action}

@[simp] theorem operations_outside {e : TaskEvent} :
    operations (done ++ [.outside e]) = operations done := by
  simp [operations]

@[simp] theorem operations_program :
    operations (done ++ [.program t a]) = operations done ++ [a].filter Action.isOperation := by
  simp [operations, List.filter_append]

/-! ### Runs of statements are runs of operations -/

/-- Where `app_main` does not call the presence module, its step is that of `AppMain`. -/
theorem mainStep_of_outside (henter : taskEnter pdMsToTicks g .main = none) (tick : TickType)
    (pressed : Bool) (p : Presence) :
    mainStep pdMsToTicks tick pressed (g.device p) =
        (mainOutside pdMsToTicks tick pressed g).device p ∧
      (mainAction (g.device p)).isOperation = false := by
  simp only [taskEnter] at henter
  simp only [mainStep, mainOutside, mainAction, TaskControl.device]
  cases hpc : g.pc with
  | startAcknowledge | update | acknowledge | nextPage =>
    rw [hpc] at henter
    cases henter
  | httpServerStart | sample | debounce | recordPress | measureRelease => exact ⟨rfl, rfl⟩

/-- Where it does, it waits for the mutex. -/
theorem mainOutside_of_enter (henter : taskEnter pdMsToTicks g .main = some P) (tick : TickType)
    (pressed : Bool) : mainOutside pdMsToTicks tick pressed g = g := by
  simp only [taskEnter] at henter
  simp only [mainOutside]
  cases hpc : g.pc with
  | startAcknowledge | update | acknowledge | nextPage => rfl
  | httpServerStart | sample | debounce | recordPress | measureRelease =>
    rw [hpc] at henter
    cases henter

theorem exec_handlerSection {latest : Option AgentMessage} (hrep : Represents latest p)
    {m : AgentMessage} :
    (handlerSection m).Exec p a p' ↔ p' = presenceShowMessage (some m) p ∧ a = .shown m := by
  simp only [handlerSection, exec_bind, exec_presenceShowMessageSection hrep.mutex, exec_pure]
  constructor
  · rintro ⟨_, _, rfl, rfl, rfl⟩
    exact ⟨rfl, rfl⟩
  · rintro ⟨rfl, rfl⟩
    exact ⟨(), _, rfl, rfl, rfl⟩

/-- An operation, executed at once, is a step of `AppMain`. -/
theorem exists_deviceStep {latest : Option AgentMessage} (hrep : Represents latest p)
    (hregistered : g.pending ≠ none → g.registered = true)
    (henter : taskEnter pdMsToTicks g t = some P) (hexec : P.Exec p a p') :
    ∃ e, deviceStep pdMsToTicks (g.device p) e = (taskLeave g t).device p' ∧
      deviceAction (g.device p) e = a := by
  cases t with
  | server =>
    obtain ⟨m, hm, rfl⟩ := Option.map_eq_some_iff.mp henter
    obtain ⟨rfl, rfl⟩ := (exec_handlerSection hrep).mp hexec
    have hreg := hregistered (by rw [hm]; exact Option.some_ne_none m)
    exact ⟨.http m, if_pos hreg, if_pos hreg⟩
  | main =>
    simp only [taskEnter] at henter
    simp only [deviceStep, mainStep, taskLeave, deviceAction, mainAction, TaskControl.device]
    cases hpc : g.pc with
    | httpServerStart | sample | debounce | recordPress | measureRelease =>
      rw [hpc] at henter
      cases henter
    | startAcknowledge | acknowledge =>
      rw [hpc] at henter
      cases henter
      simp only [exec_bind, exec_presenceAcknowledgeSection hrep.mutex, exec_pure] at hexec
      obtain ⟨_, _, rfl, rfl, rfl⟩ := hexec
      exact ⟨.main 0 false, by simp, by simp⟩
    | update =>
      rw [hpc] at henter
      cases henter
      simp only [exec_bind, exec_presenceUpdateSection hrep.mutex, exec_pure] at hexec
      obtain ⟨_, _, ⟨tick, rfl⟩, rfl, rfl⟩ := hexec
      exact ⟨.main tick false, by simp, by simp⟩
    | nextPage =>
      rw [hpc] at henter
      cases henter
      simp only [exec_bind, exec_presenceNextPageSection hrep.mutex, exec_pure] at hexec
      obtain ⟨_, _, ⟨tick, rfl⟩, rfl, rfl⟩ := hexec
      exact ⟨.main tick false, by simp, by simp⟩

theorem taskOutside_registered (h : g.pending ≠ none → g.registered = true) (e : TaskEvent) :
    (taskOutside pdMsToTicks g e).pending ≠ none →
      (taskOutside pdMsToTicks g e).registered = true := by
  cases e with
  | post message =>
    simp only [taskOutside]
    split_ifs with hpost
    · exact fun _ => hpost.1
    · exact h
  | main tick pressed =>
    simp only [taskOutside, mainOutside]
    cases g.pc with
    | httpServerStart => exact fun _ => rfl
    | startAcknowledge | update | sample | debounce | recordPress | measureRelease | acknowledge
    | nextPage => exact h

theorem taskLeave_registered (h : g.pending ≠ none → g.registered = true) (t : Task) :
    (taskLeave g t).pending ≠ none → (taskLeave g t).registered = true := by
  cases t with
  | server => exact fun hne => absurd rfl hne
  | main =>
    simp only [taskLeave]
    cases g.pc <;> exact h

/-- There is a run of `AppMain` with these operations that ends in this state. -/
def MatchesRun (pdMsToTicks : ℕ → TickType) (oled : Oled) (ops : List Action) (g : TaskControl)
    (p : Presence) : Prop :=
  ∃ events, deviceRun pdMsToTicks (deviceStart oled) events = g.device p ∧
    deviceOperations pdMsToTicks (deviceStart oled) events = ops

theorem MatchesRun.represents (h : MatchesRun pdMsToTicks oled ops g p) :
    Represents (lastShown ops) p := by
  obtain ⟨events, hrun, rfl⟩ := h
  have hrep : Represents _ (deviceRun pdMsToTicks (deviceStart oled) events).presence :=
    deviceRun_represents pdMsToTicks (presenceStart_represents oled) events
  rw [← lastShown_filter, hrun] at hrep
  exact hrep

theorem MatchesRun.pageFrame (h : MatchesRun pdMsToTicks oled ops g p) :
    PageFrame (glass oled.panel) ops (glass p.oled.panel) := by
  obtain ⟨events, hrun, rfl⟩ := h
  have hframe := deviceRun_pageFrame pdMsToTicks oled events
  rw [hrun] at hframe
  exact hframe

/-- A run in which operations are executed at once is a run of `AppMain`. -/
theorem atomic_refines
    (h : (deviceTasks pdMsToTicks).Atomic tasksStart (presenceStart oled) done g p) :
    (g.pending ≠ none → g.registered = true) ∧
      MatchesRun pdMsToTicks oled (operations done) g p := by
  induction h with
  | start => exact ⟨fun hne => absurd rfl hne, [], rfl, rfl⟩
  | @outside done g p e _ ih =>
    obtain ⟨hregistered, events, hrun, htrace⟩ := ih
    refine ⟨taskOutside_registered hregistered e, ?_⟩
    rw [operations_outside]
    cases e with
    | post message =>
      refine ⟨events, hrun.trans ?_, htrace⟩
      show _ = (if _ then _ else g).device p
      split_ifs <;> rfl
    | main tick pressed =>
      cases henter : taskEnter pdMsToTicks g .main with
      | none =>
        obtain ⟨hstep, haction⟩ := mainStep_of_outside henter tick pressed p
        refine ⟨events ++ [.main tick pressed], ?_, ?_⟩
        · rw [deviceRun_concat, hrun]
          exact hstep
        · rw [deviceOperations_concat, hrun, htrace, deviceAction, List.filter_singleton, haction]
          exact List.append_nil _
      | some P =>
        refine ⟨events, hrun.trans ?_, htrace⟩
        show _ = (mainOutside pdMsToTicks tick pressed g).device p
        rw [mainOutside_of_enter henter]
  | @program done g p p' t P a _ henter hexec ih =>
    obtain ⟨hregistered, hmatches⟩ := ih
    have hrep := hmatches.represents
    obtain ⟨events, hrun, htrace⟩ := hmatches
    refine ⟨taskLeave_registered hregistered t, ?_⟩
    obtain ⟨e, hstep, haction⟩ := exists_deviceStep hrep hregistered henter hexec
    refine ⟨events ++ [e], ?_, ?_⟩
    · rw [deviceRun_concat, hrun]
      exact hstep
    · rw [deviceOperations_concat, hrun, htrace, haction, operations_program]

/-- **Every run of statements is a run of operations**, however the tasks are interleaved: with the
same operations in the same order, the same variables of `app_main`, and, while the mutex is free,
the same state of the presence module. -/
theorem deviceTasks_refines (pdMsToTicks : ℕ → TickType) (oled : Oled)
    (events : List (LockSystem.Event Task TaskEvent TickType)) :
    let S := deviceTasks pdMsToTicks
    let c := S.run tasksStart (presenceStart oled) events
    ∃ p, MatchesRun pdMsToTicks oled
        (operations (S.history tasksStart (presenceStart oled) events)) c.control p ∧
      (c.holder = none → c.shared = p) ∧
      ∀ t Q, c.holder = some (t, Q) →
        ∃ P, S.enter t c.control = some P ∧ P.Reaches p Q c.shared := by
  intro S c
  obtain ⟨p, hatomic, hsince⟩ := S.run_atomic tasksStart (presenceStart oled) events
  refine ⟨p, (atomic_refines hatomic).2, ?_⟩
  rcases hsince with ⟨hfree, hp⟩ | ⟨t, P, Q, hholder, henter, hreach⟩
  · refine ⟨fun _ => hp, fun t Q hholder => ?_⟩
    rw [hfree] at hholder
    cases hholder
  · refine ⟨fun hfree => ?_, fun t' Q' hholder' => ?_⟩
    · rw [hfree] at hholder
      cases hholder
    · rw [hholder] at hholder'
      cases hholder'
      exact ⟨P, henter, hreach⟩

/-! ### The panel meanwhile -/

/-- What is on the panel while a task holds the mutex: one frame is being replaced by another. The
first belongs on the display by what has been done, and so does the second, unless the server task
is showing a message. -/
def OnPanel (initial : Frame) (ops : List Action) (g : TaskControl) (holder : Option Task)
    (panel : Sh1106) : Prop :=
  ∃ old new, PageFrame initial ops old ∧
    (PageFrame initial ops new ∨
      ∃ m, holder = some .server ∧ g.pending = some m ∧ new = screen m 0) ∧
    Blended old new panel ∧ (holder = none → glass panel = old)

/-- An operation replaces what is on display by what belongs there next. -/
theorem taskEnter_onPanel (hrep : Represents (lastShown ops) p) {initial : Frame}
    (hold : PageFrame initial ops (glass p.oled.panel))
    (henter : taskEnter pdMsToTicks g t = some P) :
    P.Throughout (fun q => OnPanel initial ops g (some t) q.oled.panel) p := by
  have hglass : GlassShows (glass p.oled.panel) p.oled.panel := glassShows_iff.mpr rfl
  have hblank : ∀ q, Blended (glass p.oled.panel) oledClear q →
      OnPanel initial ops g (some t) q := fun q hq =>
    ⟨_, _, hold, Or.inl (Or.inl rfl), hq, nofun⟩
  cases t with
  | server =>
    obtain ⟨m, hm, rfl⟩ := Option.map_eq_some_iff.mp henter
    refine throughout_bind_pure.mpr ((presenceShowMessageSection_blended hrep hglass m).imp ?_)
    intro q hq
    rw [presenceFrame_eq_screen (storeMessage_represents hrep m)] at hq
    exact ⟨_, _, hold, Or.inr ⟨m, rfl, hm, rfl⟩, hq, nofun⟩
  | main =>
    simp only [taskEnter] at henter
    cases hpc : g.pc with
    | httpServerStart | sample | debounce | recordPress | measureRelease =>
      rw [hpc] at henter
      cases henter
    | startAcknowledge | acknowledge =>
      rw [hpc] at henter
      cases henter
      exact throughout_bind_pure.mpr
        ((presenceAcknowledgeSection_blended hglass).imp fun q => hblank q.oled.panel)
    | update =>
      rw [hpc] at henter
      cases henter
      exact throughout_bind_pure.mpr
        ((presenceUpdateSection_blended hglass).imp fun q => hblank q.oled.panel)
    | nextPage =>
      rw [hpc] at henter
      cases henter
      obtain ⟨new, hpage, hnew⟩ : ∃ new, PageFrame initial ops new ∧
          (p.presenceState.state ≠ .idle → presenceFrame (turnPage pdMsToTicks 0 p) = new) := by
        by_cases hidle : p.presenceState.state = .idle
        · exact ⟨oledClear, Or.inl rfl, fun hne => absurd hidle hne⟩
        · obtain ⟨m, hm⟩ := hrep.exists_message hidle
          have hturned := turnPage_represents hrep pdMsToTicks 0 hidle
          have hcurrent := (hturned.holds m hm).current_page
          refine ⟨_, Or.inr (Or.inl ⟨m, _, hm, hcurrent, rfl⟩), fun _ => ?_⟩
          rw [hm] at hturned
          exact presenceFrame_eq_screen hturned
      exact throughout_bind_pure.mpr
        ((presenceNextPageSection_blended hrep hglass pdMsToTicks hnew).imp fun q hq =>
          ⟨_, _, hold, Or.inl hpage, hq, nofun⟩)

/-- **At every moment, between any two statements, the panel shows a page or is on the way from one
to the next.** -/
theorem deviceTasks_onPanel (pdMsToTicks : ℕ → TickType) (oled : Oled)
    (events : List (LockSystem.Event Task TaskEvent TickType)) :
    let S := deviceTasks pdMsToTicks
    let c := S.run tasksStart (presenceStart oled) events
    OnPanel (glass oled.panel) (operations (S.history tasksStart (presenceStart oled) events))
      c.control (c.holder.map Prod.fst) c.shared.oled.panel := by
  refine LockSystem.run_throughout
    (J := fun done _ p => Represents (lastShown (operations done)) p ∧
      PageFrame (glass oled.panel) (operations done) (glass p.oled.panel))
    (I := fun done g holder p =>
      OnPanel (glass oled.panel) (operations done) g holder p.oled.panel) ?_ ?_ ?_ events
  · intro done g p hatomic
    have hmatches := (atomic_refines hatomic).2
    exact ⟨hmatches.represents, hmatches.pageFrame⟩
  · rintro done g p ⟨-, hframe⟩
    exact ⟨_, _, hframe, Or.inl hframe, (glassShows_iff.mpr rfl).blended _, fun _ => rfl⟩
  · rintro done g p t P ⟨hrep, hframe⟩ henter
    exact taskEnter_onPanel hrep hframe henter

/-! ### Posted messages -/

end PresenceDevice
