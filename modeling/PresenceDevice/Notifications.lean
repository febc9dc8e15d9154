import PresenceDevice.AppMain

/-!
# What becomes of a notification

Two promises about interleavings of the two tasks, and the exact runs that keep them.

A notification stays until the user interacts with it. That fails when it arrives in the gap
between the registration of the handler and the acknowledge with which `app_main` blanks the
display.

A press acts on the message that was on display when it began. That fails when a message arrives
while the button is held: the release is dispatched to whatever is on display by then.

## Main definitions

* `Stays`, `ShownBeforeStart`: the first promise, and what breaks it
* `PressesMeanWhatWasShown`, `ShownDuringHold`: the second promise, and what breaks it

## Main results

* `stays_iff`, `pressesMeanWhatWasShown_iff`: the promises hold in exactly the runs that avoid this
* `not_stays_early`, `not_pressesMeanWhatWasShown_hold`: runs that do not keep them
-/

namespace PresenceDevice

variable {pdMsToTicks : ℕ → TickType} {d : Device} {events : List DeviceEvent} {e : DeviceEvent}
  {m : AgentMessage}

/-! ### Notifications stay -/

/-- The message is on display and has not been read. -/
def ShownUnread (m : AgentMessage) (p : Presence) : Prop :=
  p.presenceState.state = .unread ∧ p.oled.flushed = some (screen m 0)

/-- At every moment of the run, the last message shown is on display and unread. -/
def Stays (pdMsToTicks : ℕ → TickType) (d : Device) (events : List DeviceEvent) : Prop :=
  ∀ seen, seen <+: events → ∀ m, lastShown (deviceTrace pdMsToTicks d seen) = some m →
    ShownUnread m (deviceRun pdMsToTicks d seen).presence

/-- A message has been shown when `app_main` makes its first acknowledge. -/
def ShownBeforeStart (pdMsToTicks : ℕ → TickType) (d : Device) (events : List DeviceEvent) : Prop :=
  ∃ seen e, seen ++ [e] <+: events ∧
    deviceAction (deviceRun pdMsToTicks d seen) e = .acknowledgedAtStart ∧
    ∃ m, lastShown (deviceTrace pdMsToTicks d seen) = some m

/-- The main task has not accepted a press: it is in none of the steps that lead to a dispatch. -/
def Untouched (d : Device) : Prop :=
  d.wasPressed = false ∧ d.pc ≠ .measureRelease ∧ d.pc ≠ .acknowledge ∧ d.pc ≠ .nextPage

theorem deviceStep_untouched (h : Untouched d) (he : deviceAction d e ≠ .pressAccepted) :
    Untouched (deviceStep pdMsToTicks d e) := by
  obtain ⟨hpressed, hmeasure, hack, hnext⟩ := h
  cases e with
  | http m =>
    rw [deviceStep]
    split_ifs <;> exact ⟨hpressed, hmeasure, hack, hnext⟩
  | main tick pressed =>
    rw [deviceAction, mainAction] at he
    rw [deviceStep, mainStep]
    cases hpc : d.pc with
    | measureRelease => exact absurd hpc hmeasure
    | acknowledge => exact absurd hpc hack
    | nextPage => exact absurd hpc hnext
    | recordPress => simp [hpc] at he
    | debounce =>
      -- only a press can differ from a button that was not pressed
      cases pressed <;> simp [Untouched, hpressed]
    | sample => cases pressed <;> simp [Untouched, hpressed]
    | httpServerStart | startAcknowledge | update => simp [Untouched, hpressed]

/-- While no press is accepted, a step keeps a message on display, except for the first
acknowledge. -/
theorem deviceStep_shownUnread {latest : Option AgentMessage} (h : Represents latest d.presence)
    (hd : Untouched d) (hshown : ∀ m, latest = some m → ShownUnread m d.presence)
    (hstart : deviceAction d e = .acknowledgedAtStart → latest = none)
    (hm : nextShown latest (deviceAction d e) = some m) :
    ShownUnread m (deviceStep pdMsToTicks d e).presence := by
  obtain ⟨-, hmeasure, hack, hnext⟩ := hd
  cases e with
  | http m' =>
    rw [deviceAction] at hm
    rw [deviceStep]
    split_ifs at hm ⊢ with hreg
    · obtain rfl := Option.some.inj hm
      rw [presenceShowMessage_some h]
      exact ⟨rfl, congrArg some (presenceFrame_eq_screen (storeMessage_represents h m'))⟩
    · exact hshown m hm
  | main tick pressed =>
    rw [deviceAction, mainAction] at hm hstart
    rw [deviceStep, mainStep]
    cases hpc : d.pc with
    | startAcknowledge =>
      simp only [hpc, forall_const] at hstart
      simp [hpc, hstart, nextShown] at hm
    | update =>
      simp only [hpc, nextShown] at hm
      have hunread := hshown m hm
      show ShownUnread m (presenceUpdate tick d.presence)
      rwa [presenceUpdate_of_unread h tick hunread.1]
    | measureRelease => exact absurd hpc hmeasure
    | acknowledge => exact absurd hpc hack
    | nextPage => exact absurd hpc hnext
    | httpServerStart | sample | debounce | recordPress =>
      simp only [hpc, nextShown] at hm
      exact hshown m hm

theorem deviceStep_of_acknowledgedAtStart (h : deviceAction d e = .acknowledgedAtStart) :
    (deviceStep pdMsToTicks d e).presence = presenceAcknowledge d.presence := by
  cases e with
  | http m =>
    rw [deviceAction] at h
    split_ifs at h
  | main tick pressed =>
    rw [deviceAction, mainAction] at h
    rw [deviceStep, mainStep]
    cases hpc : d.pc <;> simp [hpc] at h ⊢

/-- Without a press and without an early message, every message stays. -/
theorem shownUnread_of_quiet {oled : Oled}
    (hpress : .pressAccepted ∉ deviceTrace pdMsToTicks (deviceStart oled) events)
    (hearly : ¬ ShownBeforeStart pdMsToTicks (deviceStart oled) events)
    (seen : List DeviceEvent) (hseen : seen <+: events) :
    Untouched (deviceRun pdMsToTicks (deviceStart oled) seen) ∧
      ∀ m, lastShown (deviceTrace pdMsToTicks (deviceStart oled) seen) = some m →
        ShownUnread m (deviceRun pdMsToTicks (deviceStart oled) seen).presence := by
  induction seen using List.reverseRecOn with
  | nil => exact ⟨⟨rfl, nofun, nofun, nofun⟩, fun m hm => by cases hm⟩
  | append_singleton seen e ih =>
    obtain ⟨huntouched, hshown⟩ := ih ((List.prefix_append ..).trans hseen)
    have hrep : Represents _ (deviceRun pdMsToTicks (deviceStart oled) seen).presence :=
      deviceRun_represents pdMsToTicks (presenceStart_represents oled) seen
    have hact :
        deviceAction (deviceRun pdMsToTicks (deviceStart oled) seen) e ≠ .pressAccepted := by
      intro heq
      refine hpress ((deviceTrace_initialPart hseen).subset ?_)
      rw [deviceTrace_concat, heq]
      exact List.mem_append_right _ (List.mem_singleton_self _)
    rw [deviceRun_concat, deviceTrace_concat, lastShown_concat]
    refine ⟨deviceStep_untouched huntouched hact, ?_⟩
    intro m hm
    refine deviceStep_shownUnread hrep huntouched hshown (fun hstart => ?_) hm
    by_contra hne
    obtain ⟨m', hm'⟩ := Option.ne_none_iff_exists'.mp hne
    exact hearly ⟨seen, e, hseen, hstart, m', hm'⟩

/-- **Without a press, notifications stay exactly when none is shown before the first
acknowledge.** -/
theorem stays_iff (pdMsToTicks : ℕ → TickType) (oled : Oled) (events : List DeviceEvent)
    (hpress : .pressAccepted ∉ deviceTrace pdMsToTicks (deviceStart oled) events) :
    Stays pdMsToTicks (deviceStart oled) events ↔
      ¬ ShownBeforeStart pdMsToTicks (deviceStart oled) events := by
  constructor
  · rintro hstays ⟨seen, e, hseen, hstart, m, hm⟩
    have hrep : Represents _ (deviceRun pdMsToTicks (deviceStart oled) seen).presence :=
      deviceRun_represents pdMsToTicks (presenceStart_represents oled) seen
    have hshown := hstays (seen ++ [e]) hseen m (by
      rw [deviceTrace_concat, lastShown_concat, hstart, hm]
      rfl)
    have hidle := presenceAcknowledge_idle hrep
    rw [deviceRun_concat, ShownUnread, deviceStep_of_acknowledgedAtStart hstart, hidle] at hshown
    cases hshown.1
  · intro hearly seen hseen
    exact (shownUnread_of_quiet hpress hearly seen hseen).2

theorem stays_iff_afterStart :
    Stays pdMsToTicks100Hz (deviceStart oledPowerUp)
        [.main 0 false, .main 1 false, .http buildMessage, .main 4 false] ↔
      ¬ ShownBeforeStart pdMsToTicks100Hz (deviceStart oledPowerUp)
        [.main 0 false, .main 1 false, .http buildMessage, .main 4 false] :=
  stays_iff pdMsToTicks100Hz oledPowerUp _ (by decide)

/-- **A notification can disappear without a press.** It arrives when the server has been started
and the display has not been blanked yet. -/
theorem not_stays_early :
    .pressAccepted ∉ deviceTrace pdMsToTicks100Hz (deviceStart oledPowerUp)
        [.main 0 false, .http buildMessage, .main 1 false] ∧
      ¬ Stays pdMsToTicks100Hz (deviceStart oledPowerUp)
        [.main 0 false, .http buildMessage, .main 1 false] := by
  refine ⟨by decide, ?_⟩
  intro hstays
  have hshown := hstays _ (List.prefix_refl _) buildMessage (by decide)
  exact absurd hshown.1 (by decide)

/-! ### Presses -/

/-- A message has been shown since the last press was accepted. -/
def ShownDuringHold (actions : List Action) : Prop :=
  ∃ before after m, actions = before ++ .pressAccepted :: after ∧ .pressAccepted ∉ after ∧
    .shown m ∈ after

/-- The step `e`, taken after the events `seen`, takes the message on display out of UNREAD. -/
def LeavesUnread (pdMsToTicks : ℕ → TickType) (d : Device) (seen : List DeviceEvent)
    (e : DeviceEvent) : Prop :=
  (deviceRun pdMsToTicks d seen).presence.presenceState.state = .unread ∧
    (deviceRun pdMsToTicks d (seen ++ [e])).presence.presenceState.state ≠ .unread

/-- A press acts only on what was on display when it was accepted. -/
structure PressesMeanWhatWasShown (pdMsToTicks : ℕ → TickType) (d : Device)
    (events : List DeviceEvent) : Prop where
  /-- The dispatch of a release leaves a message alone that was shown after the press. -/
  dispatch : ∀ seen e, seen ++ [e] <+: events →
    deviceAction (deviceRun pdMsToTicks d seen) e = .dispatched →
      ShownDuringHold (deviceTrace pdMsToTicks d seen) → ¬ LeavesUnread pdMsToTicks d seen e
  /-- A message leaves UNREAD only through a press that was accepted after it was shown. -/
  leaves : ∀ seen e, seen ++ [e] <+: events → LeavesUnread pdMsToTicks d seen e →
    deviceAction (deviceRun pdMsToTicks d seen) e = .dispatched ∧
      ¬ ShownDuringHold (deviceTrace pdMsToTicks d seen)

/-- A release is dispatched although a message has been shown since its press. -/
def ShownBeforeRelease (pdMsToTicks : ℕ → TickType) (d : Device) (events : List DeviceEvent) :
    Prop :=
  ∃ seen e, seen ++ [e] <+: events ∧
    deviceAction (deviceRun pdMsToTicks d seen) e = .dispatched ∧
    ShownDuringHold (deviceTrace pdMsToTicks d seen)

theorem not_shownDuringHold_pressAccepted {actions : List Action} :
    ¬ ShownDuringHold (actions ++ [.pressAccepted]) := by
  rintro ⟨before, after, m, heq, hnone, hm⟩
  rcases List.eq_nil_or_concat' after with rfl | ⟨after, a, rfl⟩
  · cases hm
  · rw [← List.cons_append, ← List.append_assoc] at heq
    obtain ⟨-, hlast⟩ := List.append_inj' heq rfl
    obtain rfl := List.cons.inj hlast |>.1
    exact hnone (List.mem_append_right _ (List.mem_singleton_self _))

/-- An action that shows nothing does not change whether a message has been shown. -/
theorem shownDuringHold_of_concat {actions : List Action} {a : Action} (ha : ∀ m, a ≠ .shown m)
    (h : ShownDuringHold (actions ++ [a])) : ShownDuringHold actions := by
  obtain ⟨before, after, m, heq, hnone, hm⟩ := h
  rcases List.eq_nil_or_concat' after with rfl | ⟨after, a', rfl⟩
  · cases hm
  · rw [← List.cons_append, ← List.append_assoc] at heq
    obtain ⟨hinit, hlast⟩ := List.append_inj' heq rfl
    obtain rfl := List.cons.inj hlast |>.1
    refine ⟨before, after, m, hinit, fun h => hnone (List.mem_append_left _ h), ?_⟩
    rcases List.mem_append.mp hm with hm | hm
    · exact hm
    · exact absurd (List.mem_singleton.mp hm).symm (ha m)

/-- The main task in its loop: a release is measured and dispatched only while a press is on. -/
structure InLoop (d : Device) : Prop where
  started : d.pc ≠ .httpServerStart ∧ d.pc ≠ .startAcknowledge
  held : d.pc = .measureRelease ∨ d.pc = .acknowledge ∨ d.pc = .nextPage → d.wasPressed = true

theorem InLoop.step (h : InLoop d) (e : DeviceEvent) : InLoop (deviceStep pdMsToTicks d e) := by
  obtain ⟨⟨hserver, hstart⟩, hheld⟩ := h
  cases e with
  | http m =>
    rw [deviceStep]
    split_ifs <;> exact ⟨⟨hserver, hstart⟩, hheld⟩
  | main tick pressed =>
    rw [deviceStep, mainStep]
    cases hpc : d.pc with
    | httpServerStart => exact absurd hpc hserver
    | startAcknowledge => exact absurd hpc hstart
    | debounce =>
      cases d.wasPressed <;> cases pressed <;>
        exact ⟨by simp, by simp⟩
    | sample =>
      cases d.wasPressed <;> cases pressed <;>
        exact ⟨by simp, by simp⟩
    | measureRelease =>
      have hwas := hheld (Or.inl hpc)
      refine ⟨?_, fun _ => hwas⟩
      show (if _ then MainPc.acknowledge else .nextPage) ≠ _ ∧ _
      split_ifs <;> simp
    | update | recordPress | acknowledge | nextPage => exact ⟨by simp, by simp⟩

/-- What is known while the button is held: a message shown since the press is still unread. -/
structure HoldInv (actions : List Action) (d : Device) : Prop where
  represents : ∃ latest, Represents latest d.presence
  inLoop : InLoop d
  unread : d.wasPressed = true → ShownDuringHold actions → d.presence.presenceState.state = .unread

theorem loopStart_holdInv (oled : Oled) : HoldInv [] (loopStart oled) where
  represents := ⟨none, presenceCall_represents (presenceStart_represents oled) (fun _ => 0) 0
    .acknowledge⟩
  inLoop := ⟨by simp [loopStart], by simp [loopStart]⟩
  unread hpressed := by cases hpressed

/-- Outside a dispatch, the loop and the handler leave an unread message unread. -/
theorem deviceStep_unread {latest : Option AgentMessage} (h : Represents latest d.presence)
    (hloop : InLoop d) (hunread : d.presence.presenceState.state = .unread)
    (he : deviceAction d e ≠ .dispatched) :
    (deviceStep pdMsToTicks d e).presence.presenceState.state = .unread := by
  cases e with
  | http m =>
    rw [deviceStep]
    split_ifs
    · show (presenceShowMessage (some m) d.presence).presenceState.state = .unread
      rw [presenceShowMessage_some h]
      rfl
    · exact hunread
  | main tick pressed =>
    rw [deviceAction, mainAction] at he
    rw [deviceStep, mainStep]
    cases hpc : d.pc with
    | startAcknowledge => exact absurd hpc hloop.started.2
    | acknowledge | nextPage => simp [hpc] at he
    | update =>
      show (presenceUpdate tick d.presence).presenceState.state = .unread
      rwa [presenceUpdate_of_unread h tick hunread]
    | httpServerStart | sample | debounce | recordPress | measureRelease => exact hunread

/-- A dispatch leaves no message unread. -/
theorem deviceStep_of_dispatched (pdMsToTicks : ℕ → TickType) {latest : Option AgentMessage}
    (h : Represents latest d.presence) (he : deviceAction d e = .dispatched) :
    (d.pc = .acknowledge ∨ d.pc = .nextPage) ∧
      (deviceStep pdMsToTicks d e).presence.presenceState.state ≠ .unread := by
  cases e with
  | http m =>
    rw [deviceAction] at he
    split_ifs at he
  | main tick pressed =>
    rw [deviceAction, mainAction] at he
    rw [deviceStep, mainStep]
    cases hpc : d.pc with
    | acknowledge =>
      refine ⟨Or.inl rfl, ?_⟩
      show (presenceAcknowledge d.presence).presenceState.state ≠ .unread
      rw [presenceAcknowledge_idle h]
      exact PresenceState.noConfusion
    | nextPage => exact ⟨Or.inr rfl, presenceNextPage_ne_unread h pdMsToTicks tick⟩
    | httpServerStart | startAcknowledge | update | sample | debounce | recordPress
    | measureRelease => simp [hpc] at he

theorem mainAction_ne_shown (d : Device) (m : AgentMessage) : mainAction d ≠ .shown m := by
  rw [mainAction]
  cases d.pc <;> exact Action.noConfusion

/-- While the button is held, the press has just been accepted or it was held before; a dispatch
ends the hold. -/
theorem mainAction_of_wasPressed (hloop : InLoop d) {tick : TickType} {pressed : Bool}
    (h : (mainStep pdMsToTicks tick pressed d).wasPressed = true) :
    mainAction d = .pressAccepted ∨ d.wasPressed = true ∧ mainAction d ≠ .dispatched := by
  rw [mainStep] at h
  rw [mainAction]
  cases hpc : d.pc with
  | recordPress => exact Or.inl rfl
  | httpServerStart => exact absurd hpc hloop.started.1
  | startAcknowledge => exact absurd hpc hloop.started.2
  | acknowledge | nextPage => simp [hpc] at h
  | update | sample | debounce | measureRelease =>
    simp only [hpc] at h
    exact Or.inr ⟨h, Action.noConfusion⟩

theorem HoldInv.step {actions : List Action} (h : HoldInv actions d) (e : DeviceEvent) :
    HoldInv (actions ++ [deviceAction d e]) (deviceStep pdMsToTicks d e) := by
  obtain ⟨⟨latest, hrep⟩, hloop, hunread⟩ := h
  refine ⟨⟨_, deviceStep_represents hrep e⟩, hloop.step e, ?_⟩
  intro hpressed hshown
  cases e with
  | http m =>
    rw [deviceAction] at hshown
    rw [deviceStep] at hpressed ⊢
    split_ifs at hshown hpressed ⊢
    · show (presenceShowMessage (some m) d.presence).presenceState.state = .unread
      rw [presenceShowMessage_some hrep]
      rfl
    · exact hunread hpressed (shownDuringHold_of_concat (fun _ => Action.noConfusion) hshown)
  | main tick pressed =>
    rcases mainAction_of_wasPressed hloop hpressed with haccepted | ⟨hwas, hdisp⟩
    · rw [deviceAction, haccepted] at hshown
      exact absurd hshown not_shownDuringHold_pressAccepted
    · have hbefore := hunread hwas (shownDuringHold_of_concat (mainAction_ne_shown d) hshown)
      exact deviceStep_unread hrep hloop hbefore hdisp

theorem deviceRun_holdInv (pdMsToTicks : ℕ → TickType) (oled : Oled) (events : List DeviceEvent) :
    HoldInv (deviceTrace pdMsToTicks (loopStart oled) events)
      (deviceRun pdMsToTicks (loopStart oled) events) :=
  Machine.trace_induction (I := HoldInv) (loopStart_holdInv oled) (fun _ _ e h => h.step e) events

/-- **Presses act on what was on display exactly when no message is shown between an accepted press
and the dispatch of its release.** -/
theorem pressesMeanWhatWasShown_iff (pdMsToTicks : ℕ → TickType) (oled : Oled)
    (events : List DeviceEvent) :
    PressesMeanWhatWasShown pdMsToTicks (loopStart oled) events ↔
      ¬ ShownBeforeRelease pdMsToTicks (loopStart oled) events := by
  constructor
  · rintro ⟨hdispatch, -⟩ ⟨seen, e, hseen, hact, hshown⟩
    obtain ⟨⟨latest, hrep⟩, hloop, hunread⟩ := deviceRun_holdInv pdMsToTicks oled seen
    obtain ⟨hpc, hafter⟩ := deviceStep_of_dispatched pdMsToTicks hrep hact
    refine hdispatch seen e hseen hact hshown ⟨hunread (hloop.held (Or.inr hpc)) hshown, ?_⟩
    rwa [deviceRun_concat]
  · intro hnone
    constructor
    case dispatch =>
      intro seen e hseen hact hshown
      exact absurd ⟨seen, e, hseen, hact, hshown⟩ hnone
    case leaves =>
      rintro seen e hseen ⟨hbefore, hafter⟩
      obtain ⟨⟨latest, hrep⟩, hloop, -⟩ := deviceRun_holdInv pdMsToTicks oled seen
      have hact : deviceAction (deviceRun pdMsToTicks (loopStart oled) seen) e = .dispatched := by
        by_contra hne
        rw [deviceRun_concat] at hafter
        exact hafter (deviceStep_unread hrep hloop hbefore hne)
      exact ⟨hact, fun hshown => hnone ⟨seen, e, hseen, hact, hshown⟩⟩

/-- A press that is accepted, a message, and the release. -/
def heldEvents : List DeviceEvent :=
  [.main 0 false, .main 0 true, .main 3 true, .main 3 true, .http buildMessage, .main 5 true,
    .main 6 false, .main 9 false, .main 9 false]

/-- **A press can act on a message that arrived after it.** The release turns a page of the
message, which thereby is no longer unread. -/
theorem not_pressesMeanWhatWasShown_hold :
    ¬ PressesMeanWhatWasShown pdMsToTicks100Hz (loopStart oledPowerUp)
      (heldEvents ++ [.main 9 false]) := by
  intro h
  have hshown : ShownDuringHold
      (deviceTrace pdMsToTicks100Hz (loopStart oledPowerUp) heldEvents) :=
    ⟨[.internal, .internal, .internal],
      [.shown buildMessage, .internal, .internal, .internal, .internal], buildMessage, by decide,
      by decide, by decide⟩
  exact h.dispatch heldEvents (.main 9 false) (List.prefix_refl _) (by decide) hshown
    ⟨by decide, by decide⟩

end PresenceDevice
