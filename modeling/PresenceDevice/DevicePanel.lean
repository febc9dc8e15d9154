import PresenceDevice.AppMain
import PresenceDevice.PresenceSections

/-!
# What is on the panel

The display as somebody in front of it sees it: the visible area of the panel's RAM. Until the first
operation of the presence module that is whatever the panel had in its RAM; from then on it is the
framebuffer, and the framebuffer is blank or a page of the last message shown.

## Main definitions

* `glass`: what can be seen on the panel
* `PageFrame`: a frame that may be on display
* `Settled`: the panel agrees with the framebuffer and the framebuffer with the model

## Main results

* `deviceRun_settled`: they agree after every run
* `deviceRun_glass`: nothing but pages of the last message is ever on the panel
-/

namespace PresenceDevice

/-- The visible area of the panel. -/
def glass (panel : Sh1106) : Frame :=
  fun i => panel.ram (i / oledWidth) (i % oledWidth + sh1106Offset)

theorem index_div (page : Fin oledPages) (column : Fin oledWidth) :
    ((page : ℕ) * oledWidth + column) / oledWidth = page := by
  rw [Nat.mul_comm, Nat.mul_add_div (by decide), Nat.div_eq_of_lt column.isLt, Nat.add_zero]

theorem index_mod (page : Fin oledPages) (column : Fin oledWidth) :
    ((page : ℕ) * oledWidth + column) % oledWidth = column := by
  rw [Nat.mul_comm, Nat.mul_add_mod, Nat.mod_eq_of_lt column.isLt]

theorem glassShows_iff {frame : Frame} {panel : Sh1106} :
    GlassShows frame panel ↔ glass panel = frame := by
  constructor
  · intro h
    funext i
    have hpage : (i : ℕ) / oledWidth < oledPages := Nat.div_lt_of_lt_mul i.isLt
    have hshown := h ⟨i / oledWidth, hpage⟩ ⟨i % oledWidth, Nat.mod_lt _ (by decide)⟩
    rw [glass, hshown]
    congr 1
    exact Fin.ext (Nat.div_add_mod' i oledWidth)
  · rintro rfl page column
    simp only [glass, index_div, index_mod]

/-- What operations of the presence module do for the outside. -/
def Action.isOperation : Action → Bool
  | .acknowledgedAtStart | .dispatched | .shown _ => true
  | .internal | .pressAccepted => false

/-- Only operations show messages. -/
theorem lastShown_filter (actions : List Action) :
    lastShown (actions.filter Action.isOperation) = lastShown actions := by
  induction actions using List.reverseRecOn with
  | nil => rfl
  | append_singleton actions a ih =>
    rw [List.filter_append, lastShown_concat]
    cases a with
    | internal | pressAccepted =>
      show lastShown (actions.filter Action.isOperation ++ []) = lastShown actions
      rw [List.append_nil, ih]
    | acknowledgedAtStart | dispatched | shown m =>
      show lastShown (actions.filter Action.isOperation ++ [_]) = _
      rw [lastShown_concat, ih]

/-- A frame that may be on display after these operations: blank, or a page of the last message
shown; or what the panel showed at first, if there were none. -/
def PageFrame (initial : Frame) (operations : List Action) (frame : Frame) : Prop :=
  frame = oledClear ∨
    (∃ m page, lastShown operations = some m ∧ page < m.pageCount ∧ frame = screen m page) ∨
    (operations = [] ∧ frame = initial)

/-- The panel shows the framebuffer. -/
def Oled.Synced (oled : Oled) : Prop := GlassShows oled.oledBuffer oled.panel

theorem oledFlush_oledBuffer (oled : Oled) : (oledFlush oled).oledBuffer = oled.oledBuffer := by
  rw [oledFlush]

theorem oledFlush_synced (oled : Oled) : (oledFlush oled).Synced := by
  rw [Oled.Synced, oledFlush_oledBuffer]
  exact oledFlush_glassShows oled

theorem presenceDrawLocked_synced (p : Presence) : (presenceDrawLocked p).oled.Synced :=
  oledFlush_synced _

theorem presenceClearLocked_synced (p : Presence) : (presenceClearLocked p).oled.Synced :=
  oledFlush_synced _

/-- Before the first operation the display is as it was found, and `app_main` is still starting.
Afterwards panel, framebuffer and model agree. -/
def Settled (oled : Oled) (operations : List Action) (d : Device) : Prop :=
  (operations = [] ∧ d.presence.oled = oled ∧
      (d.pc = .httpServerStart ∨ d.pc = .startAcknowledge)) ∨
    (Displays (lastShown operations) d.presence ∧ d.presence.oled.Synced)

variable {pdMsToTicks : ℕ → TickType} {oled : Oled} {ops : List Action} {d : Device}
  {e : DeviceEvent} {p : Presence} {latest : Option AgentMessage} {m : AgentMessage}

/-! ### One step -/

/-- **Every call leaves the framebuffer on the panel**, in agreement with the model. -/
theorem presenceCall_settled (hrep : Represents latest p) (hd : Displays latest p)
    (hsynced : p.oled.Synced) (pdMsToTicks : ℕ → TickType) (tick : TickType)
    (call : PresenceCall) :
    Displays (nextMessage latest call) (presenceCall pdMsToTicks tick p call) ∧
      (presenceCall pdMsToTicks tick p call).oled.Synced := by
  refine ⟨presenceCall_displays hrep hd pdMsToTicks tick call, ?_⟩
  cases call with
  | showMessage message =>
    cases message with
    | none => exact hsynced
    | some m =>
      rw [presenceCall, presenceShowMessage_some hrep]
      exact presenceDrawLocked_synced _
  | nextPage =>
    by_cases hidle : p.presenceState.state = .idle
    · rwa [presenceCall, presenceNextPage_of_idle _ _ hidle]
    · rw [presenceCall, presenceNextPage_of_ne_idle hrep _ _ hidle]
      exact presenceDrawLocked_synced _
  | acknowledge =>
    rw [presenceCall, presenceAcknowledge_eq hrep]
    exact presenceClearLocked_synced _
  | update =>
    rw [presenceCall, presenceUpdate_eq hrep]
    split_ifs
    · exact presenceClearLocked_synced _
    · exact hsynced

/-- A message that is shown, on the panel. -/
theorem presenceShowMessage_settled (hrep : Represents latest p) (m : AgentMessage) :
    Displays (some m) (presenceShowMessage (some m) p) ∧
      (presenceShowMessage (some m) p).oled.Synced := by
  rw [presenceShowMessage_some hrep]
  exact ⟨(storeMessage_represents hrep m).displays_drawn PresenceState.noConfusion,
    presenceDrawLocked_synced _⟩

/-- When `presence_show_message` returns, the message is unread and its first page is on the
panel. -/
theorem presenceShowMessage_onPanel (hrep : Represents latest p) (m : AgentMessage) :
    (presenceShowMessage (some m) p).presenceState = ⟨.unread, 0, m.pageCount⟩ ∧
      glass (presenceShowMessage (some m) p).oled.panel = screen m 0 := by
  obtain ⟨hdisplays, hsynced⟩ := presenceShowMessage_settled hrep m
  have hstate : (presenceShowMessage (some m) p).presenceState = ⟨.unread, 0, m.pageCount⟩ := by
    rw [presenceShowMessage_some hrep]
    rfl
  refine ⟨hstate, ?_⟩
  obtain ⟨m', hm', -, hframe⟩ := hdisplays.shown (by rw [hstate]; exact PresenceState.noConfusion)
  obtain rfl := Option.some.inj hm'
  rw [glassShows_iff.mp hsynced, hframe, hstate]

/-- A message that is put away leaves a blank panel. -/
theorem presenceAcknowledge_settled (hrep : Represents latest p) :
    Displays latest (presenceAcknowledge p) ∧ (presenceAcknowledge p).oled.Synced := by
  rw [presenceAcknowledge_eq hrep]
  exact ⟨(putAway_represents hrep 0).displays_cleared rfl, presenceClearLocked_synced _⟩

/-- **Every step leaves the panel in agreement with the model.** -/
theorem Settled.step (h : Settled oled ops d) (hrep : Represents (lastShown ops) d.presence)
    (e : DeviceEvent) :
    Settled oled (ops ++ [deviceAction d e].filter Action.isOperation)
      (deviceStep pdMsToTicks d e) := by
  have hinternal : [Action.internal].filter Action.isOperation = [] := rfl
  have hpress : [Action.pressAccepted].filter Action.isOperation = [] := rfl
  have hstart : [Action.acknowledgedAtStart].filter Action.isOperation = [.acknowledgedAtStart] :=
    rfl
  have hdispatched : [Action.dispatched].filter Action.isOperation = [.dispatched] := rfl
  cases e with
  | http m =>
    rw [deviceStep, deviceAction]
    split_ifs
    · refine Or.inr ?_
      rw [show [Action.shown m].filter Action.isOperation = [.shown m] from rfl, lastShown_concat]
      exact presenceShowMessage_settled hrep m
    · rwa [hinternal, List.append_nil]
  | main tick pressed =>
    simp only [deviceStep, mainStep, deviceAction, mainAction]
    rcases h with ⟨hops, holed, hpc | hpc⟩ | ⟨hd, hsynced⟩
    · simp only [hpc, hinternal, List.append_nil]
      exact Or.inl ⟨hops, holed, Or.inr rfl⟩
    · simp only [hpc, hstart]
      refine Or.inr ?_
      rw [lastShown_concat]
      exact presenceAcknowledge_settled hrep
    · have hcall := presenceCall_settled hrep hd hsynced pdMsToTicks tick
      refine Or.inr ?_
      cases hpc : d.pc with
      | startAcknowledge =>
        rw [hstart, lastShown_concat]
        exact hcall .acknowledge
      | acknowledge =>
        rw [hdispatched, lastShown_concat]
        exact hcall .acknowledge
      | nextPage =>
        rw [hdispatched, lastShown_concat]
        exact hcall .nextPage
      | update =>
        rw [hinternal, List.append_nil]
        exact hcall .update
      | httpServerStart | sample | debounce | measureRelease =>
        rw [hinternal, List.append_nil]
        exact ⟨hd, hsynced⟩
      | recordPress =>
        rw [hpress, List.append_nil]
        exact ⟨hd, hsynced⟩

/-! ### Runs -/

/-- What the operations of a run are for. -/
def deviceOperations (pdMsToTicks : ℕ → TickType) (d : Device) (events : List DeviceEvent) :
    List Action :=
  (deviceTrace pdMsToTicks d events).filter Action.isOperation

@[simp] theorem deviceOperations_concat {events : List DeviceEvent} :
    deviceOperations pdMsToTicks d (events ++ [e]) = deviceOperations pdMsToTicks d events ++
      [deviceAction (deviceRun pdMsToTicks d events) e].filter Action.isOperation := by
  rw [deviceOperations, deviceTrace_concat, List.filter_append]
  rfl

/-- **Panel, framebuffer and model agree after every run.** -/
theorem deviceRun_settled (pdMsToTicks : ℕ → TickType) (oled : Oled) (events : List DeviceEvent) :
    Settled oled (deviceOperations pdMsToTicks (deviceStart oled) events)
      (deviceRun pdMsToTicks (deviceStart oled) events) := by
  have hstart : Represents (lastShown []) (deviceStart oled).presence ∧
      Settled oled ([].filter Action.isOperation) (deviceStart oled) :=
    ⟨presenceStart_represents oled, Or.inl ⟨rfl, rfl, Or.inl rfl⟩⟩
  refine (Machine.trace_induction
    (I := fun actions (d : Device) => Represents (lastShown actions) d.presence ∧
      Settled oled (actions.filter Action.isOperation) d) hstart (fun actions d e ih => ?_)
    events).2
  rw [lastShown_concat, List.filter_append]
  refine ⟨deviceStep_represents ih.1 e, ih.2.step ?_ e⟩
  rw [lastShown_filter]
  exact ih.1

theorem Settled.glass_of_ne_idle (h : Settled oled ops d) (hm : lastShown ops = some m)
    (hstate : d.presence.presenceState.state ≠ .idle) :
    glass d.presence.oled.panel = screen m d.presence.presenceState.currentPage := by
  rcases h with ⟨rfl, -⟩ | ⟨hd, hsynced⟩
  · cases hm
  · obtain ⟨m', hm', -, hframe⟩ := hd.shown hstate
    rw [glassShows_iff.mp hsynced, hframe, Option.some.inj (hm.symm.trans hm')]

theorem Settled.glass_of_idle (h : Settled oled ops d)
    (hidle : d.presence.presenceState.state = .idle) (hserver : d.pc ≠ .httpServerStart)
    (hstart : d.pc ≠ .startAcknowledge) : glass d.presence.oled.panel = oledClear := by
  rcases h with ⟨-, -, hpc | hpc⟩ | ⟨hd, hsynced⟩
  · exact absurd hpc hserver
  · exact absurd hpc hstart
  · rw [glassShows_iff.mp hsynced, hd.idle hidle]

/-- What is on a settled panel. -/
theorem Settled.pageFrame (h : Settled oled ops d) (hrep : Represents (lastShown ops) d.presence) :
    PageFrame (glass oled.panel) ops (glass d.presence.oled.panel) := by
  rcases h with ⟨hops, rfl, -⟩ | ⟨hd, hsynced⟩
  · exact Or.inr (Or.inr ⟨hops, rfl⟩)
  · rw [glassShows_iff.mp hsynced]
    by_cases hidle : d.presence.presenceState.state = .idle
    · exact Or.inl (hd.idle hidle)
    · obtain ⟨m, hm, -, hframe⟩ := hd.shown hidle
      exact Or.inr (Or.inl ⟨m, _, hm, (hrep.holds m hm).current_page, hframe⟩)

/-- **Nothing but pages of the last message shown is ever on the panel**, once the first operation
has been executed. -/
theorem deviceRun_pageFrame (pdMsToTicks : ℕ → TickType) (oled : Oled)
    (events : List DeviceEvent) :
    PageFrame (glass oled.panel) (deviceOperations pdMsToTicks (deviceStart oled) events)
      (glass (deviceRun pdMsToTicks (deviceStart oled) events).presence.oled.panel) := by
  have hrep : Represents _ (deviceRun pdMsToTicks (deviceStart oled) events).presence :=
    deviceRun_represents pdMsToTicks (presenceStart_represents oled) events
  rw [← lastShown_filter] at hrep
  exact (deviceRun_settled pdMsToTicks oled events).pageFrame hrep

end PresenceDevice
