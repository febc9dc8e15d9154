import PresenceDevice.ButtonLoop
import PresenceDevice.DevicePanel
import PresenceDevice.PresenceTiming

/-!
# The device in use

What somebody has to know who uses the device: a message that is posted is on display at once, with
its first page; a short press turns the page; a long press puts the message away, and so does a
while without a press once the reading has begun. Times are true times, there is no counter, no
debouncing and no framebuffer in it.

The firmware does this. A run is observed with a clock of its own, which tells how long the button
was held and when the loop looked; the panel shows what the use of the device says, as long as the
loop goes on and nobody holds the button for a full turn of the counter.

## Main definitions

* `UserEvent`, `Shown`, `Shown.next`: the device as its user knows it
* `Watch`, `watchedRun`, `userTrace`: a run observed with a clock
* `TimelyRun`: the loop goes on

## Main results

* `deviceRun_inUse`: the panel shows what the user expects
-/

namespace PresenceDevice

/-! ### The device as its user knows it -/

/-- What happens to the device. The time of `released` is that of the action, which is what counts
for the timeout; `held` is how long the button was held. -/
inductive UserEvent
  | started
  | posted (message : AgentMessage)
  | released (held time : ℕ)
  | checked (time : ℕ)

/-- What is on display: what the panel found in its RAM, nothing, or a page of a message, with the
time at which the last page was turned. -/
inductive Shown
  | untouched
  | blank
  | page (message : AgentMessage) (number : ℕ) (turnedAt : Option ℕ)

/-- A page is turned, and the last page stays. -/
def Shown.turn (time : ℕ) : Shown → Shown
  | .page m number _ => .page m (min (number + 1) (m.pageCount - 1)) (some time)
  | s => s

/-- The reading ends when no page has been turned for `timeout`. -/
def Shown.check (timeout time : ℕ) : Shown → Shown
  | .page m number (some turnedAt) =>
    if turnedAt + timeout ≤ time then .blank else .page m number (some turnedAt)
  | s => s

/-- One event; `threshold` is what makes a press long. -/
def Shown.next (timeout threshold : ℕ) (s : Shown) : UserEvent → Shown
  | .started => .blank
  | .posted m => .page m 0 none
  | .released held time => if threshold ≤ held then .blank else s.turn time
  | .checked time => s.check timeout time

def shown (timeout threshold : ℕ) (events : List UserEvent) : Shown :=
  Machine.run (Shown.next timeout threshold) .untouched events

/-- The frame on the panel. -/
def Shown.frame (initial : Frame) : Shown → Frame
  | .untouched => initial
  | .blank => oledClear
  | .page m number _ => screen m number

/-! ### Runs with a clock -/

/-- A step of the main task at a true time, of which its counter shows the lower bits, or a
message. -/
inductive TimedEvent
  | main (time : ℕ) (pressed : Bool)
  | http (message : AgentMessage)

def TimedEvent.event : TimedEvent → DeviceEvent
  | .main time pressed => .main (BitVec.ofNat 32 time) pressed
  | .http m => .http m

/-- What an observer has noted: the time, when the loop last looked whether the reading is over,
when the last press was accepted, and how long the button was held when it was released. -/
structure Watch where
  now : ℕ
  checkedAt : ℕ
  pressedAt : ℕ
  held : ℕ

/-- The main task takes the step `pc`. -/
def Watch.next (w : Watch) (pc : MainPc) (time : ℕ) : Watch where
  now := time
  checkedAt := if pc = .update then time else w.checkedAt
  pressedAt := if pc = .recordPress then time else w.pressedAt
  held := if pc = .measureRelease then time - w.pressedAt else w.held

structure Watched where
  device : Device
  watch : Watch

def watchedStep (pdMsToTicks : ℕ → TickType) (x : Watched) (e : TimedEvent) : Watched where
  device := deviceStep pdMsToTicks x.device e.event
  watch :=
    match e with
    | .main time _ => x.watch.next x.device.pc time
    | .http _ => x.watch

/-- What a step is for the user. -/
def userEvents (x : Watched) : TimedEvent → List UserEvent
  | .http m => if x.device.registered then [.posted m] else []
  | .main time _ =>
    match x.device.pc with
    | .startAcknowledge => [.started]
    | .update => [.checked time]
    | .acknowledge | .nextPage => [.released x.watch.held time]
    | .httpServerStart | .sample | .debounce | .recordPress | .measureRelease => []

/-- The device when the server is about to be started. -/
def watchStart (oled : Oled) (start : ℕ) : Watched := ⟨deviceStart oled, ⟨start, start, 0, 0⟩⟩

def watchedRun (pdMsToTicks : ℕ → TickType) (x : Watched) (events : List TimedEvent) : Watched :=
  Machine.run (watchedStep pdMsToTicks) x events

def userTrace (pdMsToTicks : ℕ → TickType) (x : Watched) (events : List TimedEvent) :
    List UserEvent :=
  (Machine.trace (watchedStep pdMsToTicks) userEvents x events).flatten

/-- Time does not go backwards, the loop looks at least twice in a turn of the counter, and no press
takes a full turn. -/
def Timely (x : Watched) : TimedEvent → Prop
  | .http _ => True
  | .main time _ =>
    x.watch.now ≤ time ∧ (x.device.pc = .update → time < x.watch.checkedAt + 2 ^ 31) ∧
      (x.device.pc = .measureRelease → time < x.watch.pressedAt + 2 ^ 32)

instance (x : Watched) : ∀ e : TimedEvent, Decidable (Timely x e)
  | .http _ => inferInstanceAs (Decidable True)
  | .main _ _ => inferInstanceAs (Decidable (_ ∧ _))

def TimelyRun (pdMsToTicks : ℕ → TickType) : Watched → List TimedEvent → Prop
  | _, [] => True
  | x, e :: events => Timely x e ∧ TimelyRun pdMsToTicks (watchedStep pdMsToTicks x e) events

instance (pdMsToTicks : ℕ → TickType) : ∀ (x : Watched) (events : List TimedEvent),
    Decidable (TimelyRun pdMsToTicks x events)
  | _, [] => inferInstanceAs (Decidable True)
  | x, e :: events =>
    have := instDecidableTimelyRun pdMsToTicks (watchedStep pdMsToTicks x e) events
    inferInstanceAs (Decidable (_ ∧ _))

variable {pdMsToTicks : ℕ → TickType} {oled : Oled} {x : Watched} {e : TimedEvent}
  {events : List TimedEvent} {timeout threshold : ℕ} {s : Shown} {m : AgentMessage}

theorem timelyRun_concat : TimelyRun pdMsToTicks x (events ++ [e]) ↔
    TimelyRun pdMsToTicks x events ∧ Timely (watchedRun pdMsToTicks x events) e := by
  induction events generalizing x with
  | nil => exact and_comm
  | cons e' events ih => exact (and_congr_right' ih).trans and_assoc.symm

@[simp] theorem userTrace_concat : userTrace pdMsToTicks x (events ++ [e]) =
    userTrace pdMsToTicks x events ++ userEvents (watchedRun pdMsToTicks x events) e := by
  simp [userTrace, watchedRun]

@[simp] theorem watchedRun_concat : watchedRun pdMsToTicks x (events ++ [e]) =
    watchedStep pdMsToTicks (watchedRun pdMsToTicks x events) e := Machine.run_append ..

/-- The observer does not disturb the run. -/
theorem watchedRun_device : (watchedRun pdMsToTicks x events).device =
    deviceRun pdMsToTicks x.device (events.map TimedEvent.event) := by
  induction events generalizing x with
  | nil => rfl
  | cons e events ih => exact ih

/-! ### What the loop knows of the button -/

/-- What the loop knows of the button. -/
structure HoldsButton (threshold : ℕ) (x : Watched) : Prop where
  pressStarted : x.device.wasPressed = true →
    x.device.pressStarted = BitVec.ofNat 32 x.watch.pressedAt
  pressedAt : x.watch.pressedAt ≤ x.watch.now
  measured : x.device.pc = .measureRelease → x.device.wasPressed = true
  long : x.device.pc = .acknowledge → threshold ≤ x.watch.held
  short : x.device.pc = .nextPage → ¬ threshold ≤ x.watch.held

/-- Most steps are not about the button: they keep its variables, and lead to none of the steps
that need more. -/
theorem HoldsButton.elsewhere {d : Device} {w : Watch} (h : HoldsButton threshold x)
    (hwas : d.wasPressed = true → x.device.wasPressed = true ∧
      d.pressStarted = x.device.pressStarted)
    (hpressed : w.pressedAt = x.watch.pressedAt) (hnow : x.watch.now ≤ w.now)
    (hpc : d.pc ≠ .measureRelease ∧ d.pc ≠ .acknowledge ∧ d.pc ≠ .nextPage) :
    HoldsButton threshold ⟨d, w⟩ := by
  constructor
  case pressStarted =>
    intro hd
    obtain ⟨hx, hstarted⟩ := hwas hd
    rw [hstarted, hpressed]
    exact h.pressStarted hx
  case pressedAt =>
    rw [hpressed]
    exact h.pressedAt.trans hnow
  case measured => exact fun hd => absurd hd hpc.1
  case long => exact fun hd => absurd hd hpc.2.1
  case short => exact fun hd => absurd hd hpc.2.2

/-- **The loop measures the true time**: every step of it keeps what it knows of the button. -/
theorem HoldsButton.step (h : HoldsButton (pdMsToTicks presenceLongPressThresholdMs).toNat x)
    (htimely : Timely x e) :
    HoldsButton (pdMsToTicks presenceLongPressThresholdMs).toNat (watchedStep pdMsToTicks x e) := by
  cases e with
  | http m =>
    have hbutton : ∀ d : Device, d.pc = x.device.pc → d.wasPressed = x.device.wasPressed →
        d.pressStarted = x.device.pressStarted →
        HoldsButton (pdMsToTicks presenceLongPressThresholdMs).toNat ⟨d, x.watch⟩ := by
      intro d hpc hwas hstarted
      exact ⟨by rw [hwas, hstarted]; exact h.pressStarted, h.pressedAt,
        by rw [hpc, hwas]; exact h.measured, by rw [hpc]; exact h.long,
        by rw [hpc]; exact h.short⟩
    show HoldsButton _ ⟨deviceStep pdMsToTicks x.device (.http m), x.watch⟩
    rw [deviceStep]
    split_ifs
    · exact hbutton _ rfl rfl rfl
    · exact hbutton _ rfl rfl rfl
  | main time pressed =>
    obtain ⟨hnow, -, hheld⟩ := htimely
    show HoldsButton _ ⟨mainStep pdMsToTicks _ pressed x.device, x.watch.next x.device.pc time⟩
    cases hpc : x.device.pc with
    | httpServerStart | update =>
      simp only [mainStep, hpc]
      exact h.elsewhere (fun hwas => ⟨hwas, rfl⟩) rfl hnow (by simp)
    | startAcknowledge | acknowledge | nextPage =>
      simp only [mainStep, hpc]
      exact h.elsewhere (fun hwas => by cases hwas) rfl hnow (by simp)
    | sample =>
      simp only [mainStep, hpc]
      refine h.elsewhere (fun hwas => ⟨hwas, rfl⟩) rfl hnow ?_
      split_ifs
      · simp
      · simp
    | debounce =>
      simp only [mainStep, hpc]
      cases hwas : x.device.wasPressed with
      | false =>
        refine h.elsewhere (fun hwas => by cases hwas) rfl hnow ?_
        cases pressed with
        | false => simp
        | true => simp
      | true =>
        cases pressed with
        | true => exact h.elsewhere (fun _ => ⟨hwas, rfl⟩) rfl hnow (by simp)
        | false =>
          exact ⟨fun _ => h.pressStarted hwas, h.pressedAt.trans hnow, fun _ => rfl, by simp,
            by simp⟩
    | recordPress =>
      simp only [mainStep, hpc]
      exact ⟨fun _ => rfl, le_rfl, by simp, by simp, by simp⟩
    | measureRelease =>
      have hwas := h.measured hpc
      have hlong : BitVec.ofNat 32 time - x.device.pressStarted ≥
          pdMsToTicks presenceLongPressThresholdMs ↔
          (pdMsToTicks presenceLongPressThresholdMs).toNat ≤ time - x.watch.pressedAt := by
        have hlt := hheld hpc
        rw [h.pressStarted hwas]
        exact longPress_iff pdMsToTicks (h.pressedAt.trans hnow) (by omega)
      simp only [mainStep, hpc]
      by_cases hheld' : (pdMsToTicks presenceLongPressThresholdMs).toNat ≤ time - x.watch.pressedAt
      · simp only [if_pos (hlong.mpr hheld')]
        exact ⟨h.pressStarted, h.pressedAt.trans hnow, by simp, fun _ => hheld', by simp⟩
      · simp only [if_neg (mt hlong.mp hheld')]
        exact ⟨h.pressStarted, h.pressedAt.trans hnow, by simp, by simp, fun _ => hheld'⟩

/-! ### What the presence module knows of the page -/

/-- The model and the deadline are those of a page that was turned at `turnedAt`, when it is `now`
and the loop has last looked at `checkedAt`. -/
structure OnPage (timeout now checkedAt : ℕ) (m : AgentMessage) (number : ℕ)
    (turnedAt : Option ℕ) (p : Presence) : Prop where
  model : p.presenceState =
    ⟨if turnedAt = none then .unread else .reading, number, m.pageCount⟩
  deadline : ∀ t, turnedAt = some t → p.presenceDeadline = BitVec.ofNat 32 (t + timeout) ∧
    t ≤ now ∧ checkedAt < t + timeout

variable {now checkedAt time number : ℕ} {turnedAt : Option ℕ} {p : Presence}
  {latest : Option AgentMessage}

theorem OnPage.state_ne_idle (h : OnPage timeout now checkedAt m number turnedAt p) :
    p.presenceState.state ≠ .idle := by
  rw [h.model]
  cases turnedAt with
  | none => exact PresenceState.noConfusion
  | some t => exact PresenceState.noConfusion

theorem OnPage.later (h : OnPage timeout now checkedAt m number turnedAt p) (hnow : now ≤ time) :
    OnPage timeout time checkedAt m number turnedAt p :=
  ⟨h.model, fun t ht => ⟨(h.deadline t ht).1, (h.deadline t ht).2.1.trans hnow,
    (h.deadline t ht).2.2⟩⟩

theorem onPage_posted (hrep : Represents latest p) (m : AgentMessage) :
    OnPage timeout now checkedAt m 0 none (presenceShowMessage (some m) p) := by
  rw [presenceShowMessage_some hrep]
  exact ⟨rfl, fun t ht => by cases ht⟩

/-- A press turns the page and sets the deadline. -/
theorem OnPage.turn (h : OnPage timeout now checkedAt m number turnedAt p)
    (hrep : Represents latest p) (htimeout : (pdMsToTicks readingTimeoutMs).toNat = timeout)
    (hpos : 0 < timeout) (htime : checkedAt ≤ time) :
    OnPage timeout time checkedAt m (min (number + 1) (m.pageCount - 1)) (some time)
      (presenceNextPage pdMsToTicks (BitVec.ofNat 32 time) p) := by
  rw [presenceNextPage_of_ne_idle hrep _ _ h.state_ne_idle]
  constructor
  case model =>
    show (⟨_, _, _⟩ : PresenceStateModel) = _
    rw [h.model]
    rfl
  case deadline =>
    intro t ht
    obtain rfl := Option.some.inj ht
    rw [← htimeout]
    exact ⟨TickCounter.ofNat_add_eq time _, le_rfl, by omega⟩

/-- The counter's test for the end of the reading comes out as it would on true times. -/
theorem OnPage.readingExpired_iff (h : OnPage timeout now checkedAt m number turnedAt p)
    (hlt : timeout < 2 ^ 31) (hnow : now ≤ time) (hnear : time < checkedAt + 2 ^ 31) :
    ReadingExpired (BitVec.ofNat 32 time) p ↔ ∃ t, turnedAt = some t ∧ t + timeout ≤ time := by
  rw [ReadingExpired, h.model]
  cases turnedAt with
  | none => simp
  | some t =>
    obtain ⟨hdeadline, hle, hchecked⟩ := h.deadline t rfl
    have htest := TickCounter.toInt_sub_nonneg_iff (w := 32) (u := time) (d := t + timeout)
      (by omega) (by omega)
    rw [hdeadline, htest]
    simp

/-- An update ends the reading or leaves everything as it is. -/
theorem OnPage.check (h : OnPage timeout now checkedAt m number turnedAt p)
    (hrep : Represents latest p) (hlt : timeout < 2 ^ 31) (hnow : now ≤ time)
    (hnear : time < checkedAt + 2 ^ 31) :
    if ∃ t, turnedAt = some t ∧ t + timeout ≤ time then
      (presenceUpdate (BitVec.ofNat 32 time) p).presenceState.state = .idle
    else OnPage timeout time time m number turnedAt (presenceUpdate (BitVec.ofNat 32 time) p) := by
  have hexpired := h.readingExpired_iff hlt hnow hnear
  rw [presenceUpdate_eq hrep]
  split_ifs with hend hexp hexp
  · rfl
  · exact absurd (hexpired.mpr hend) hexp
  · exact absurd (hexpired.mp hexp) hend
  · refine ⟨h.model, fun t ht => ⟨(h.deadline t ht).1, (h.deadline t ht).2.1.trans hnow, ?_⟩⟩
    exact Nat.lt_of_not_le fun hle => hend ⟨t, ht, hle⟩

/-! ### The device -/

/-- The device is where its user thinks it is. -/
def Agrees (oled : Oled) (timeout : ℕ) (latest : Option AgentMessage) (x : Watched) : Shown → Prop
  | .untouched =>
    x.device.presence.presenceState.state = .idle ∧ x.device.presence.oled = oled
  | .blank =>
    x.device.presence.presenceState.state = .idle ∧ x.device.pc ≠ .httpServerStart ∧
      x.device.pc ≠ .startAcknowledge
  | .page m number turnedAt =>
    latest = some m ∧ OnPage timeout x.watch.now x.watch.checkedAt m number turnedAt
      x.device.presence

/-- The panel of a device that is where its user thinks it is. -/
theorem Agrees.glass {ops : List Action} (h : Agrees oled timeout (lastShown ops) x s)
    (hsettled : Settled oled ops x.device) :
    glass x.device.presence.oled.panel = s.frame (glass oled.panel) := by
  cases s with
  | untouched => rw [h.2]; rfl
  | blank => exact hsettled.glass_of_idle h.1 h.2.1 h.2.2
  | page m number turnedAt =>
    rw [hsettled.glass_of_ne_idle h.1 h.2.state_ne_idle, h.2.model]
    rfl

/-- The loop does not go back to the start. -/
theorem mainStep_pc (pdMsToTicks : ℕ → TickType) (tick : TickType) (pressed : Bool) (d : Device) :
    (mainStep pdMsToTicks tick pressed d).pc ≠ .httpServerStart ∧
      ((mainStep pdMsToTicks tick pressed d).pc = .startAcknowledge → d.pc = .httpServerStart) := by
  rw [mainStep]
  cases d.pc with
  | sample | debounce | measureRelease => split_ifs <;> simp
  | _ => simp

/-- A step that leaves the presence module alone changes nothing for the user. -/
theorem Agrees.quiet {d : Device} {w : Watch} (h : Agrees oled timeout latest x s)
    (hp : d.presence = x.device.presence) (hnow : x.watch.now ≤ w.now)
    (hchecked : w.checkedAt = x.watch.checkedAt)
    (hpc : d.pc ≠ .httpServerStart ∧ (d.pc = .startAcknowledge → x.device.pc = .httpServerStart)) :
    Agrees oled timeout latest ⟨d, w⟩ s := by
  cases s with
  | untouched => exact ⟨by rw [hp]; exact h.1, by rw [hp]; exact h.2⟩
  | blank => exact ⟨by rw [hp]; exact h.1, hpc.1, fun hd => h.2.1 (hpc.2 hd)⟩
  | page m number turnedAt =>
    refine ⟨h.1, ?_⟩
    show OnPage timeout w.now w.checkedAt m number turnedAt d.presence
    rw [hp, hchecked]
    exact h.2.later hnow

/-- A message that is not on display is not put away once more. -/
theorem presenceUpdate_of_idle {tick : TickType} (hrep : Represents latest p)
    (hidle : p.presenceState.state = .idle) : presenceUpdate tick p = p := by
  rw [presenceUpdate_eq hrep, if_neg]
  rintro ⟨hreading, -⟩
  rw [hidle] at hreading
  cases hreading

theorem Agrees.update {d : Device} {w : Watch} (h : Agrees oled timeout latest x s)
    (hrep : Represents latest x.device.presence) (hlt : timeout < 2 ^ 31)
    (hnow : x.watch.now ≤ time) (hnear : time < x.watch.checkedAt + 2 ^ 31)
    (hp : d.presence = presenceUpdate (BitVec.ofNat 32 time) x.device.presence)
    (hpc : d.pc = .sample) (hw : w.now = time ∧ w.checkedAt = time) :
    Agrees oled timeout latest ⟨d, w⟩ (s.check timeout time) := by
  cases s with
  | untouched =>
    rw [presenceUpdate_of_idle hrep h.1] at hp
    exact ⟨by rw [hp]; exact h.1, by rw [hp]; exact h.2⟩
  | blank =>
    rw [presenceUpdate_of_idle hrep h.1] at hp
    exact ⟨by rw [hp]; exact h.1, by simp [hpc], by simp [hpc]⟩
  | page m number turnedAt =>
    have hcheck := h.2.check hrep hlt hnow hnear
    rw [← hp] at hcheck
    have hkept : ¬ (∃ t, turnedAt = some t ∧ t + timeout ≤ time) →
        Agrees oled timeout latest ⟨d, w⟩ (.page m number turnedAt) := by
      intro hopen
      rw [if_neg hopen] at hcheck
      refine ⟨h.1, ?_⟩
      show OnPage timeout w.now w.checkedAt m number turnedAt d.presence
      rw [hw.1, hw.2]
      exact hcheck
    cases turnedAt with
    | none =>
      refine hkept ?_
      rintro ⟨t, ht, -⟩
      cases ht
    | some t =>
      rw [Shown.check]
      split_ifs with hend
      · rw [if_pos ⟨t, rfl, hend⟩] at hcheck
        exact ⟨hcheck, by simp [hpc], by simp [hpc]⟩
      · refine hkept ?_
        rintro ⟨t', ht', hle⟩
        exact hend (by rwa [Option.some.inj ht'])

theorem Agrees.nextPage {d : Device} {w : Watch} (h : Agrees oled timeout latest x s)
    (hrep : Represents latest x.device.presence)
    (htimeout : (pdMsToTicks readingTimeoutMs).toNat = timeout) (hpos : 0 < timeout)
    (htime : x.watch.checkedAt ≤ time)
    (hp : d.presence = presenceNextPage pdMsToTicks (BitVec.ofNat 32 time) x.device.presence)
    (hpc : d.pc = .update) (hw : w.now = time ∧ w.checkedAt = x.watch.checkedAt) :
    Agrees oled timeout latest ⟨d, w⟩ (s.turn time) := by
  cases s with
  | untouched =>
    rw [presenceNextPage_of_idle _ _ h.1] at hp
    exact ⟨by rw [hp]; exact h.1, by rw [hp]; exact h.2⟩
  | blank =>
    rw [presenceNextPage_of_idle _ _ h.1] at hp
    exact ⟨by rw [hp]; exact h.1, by simp [hpc], by simp [hpc]⟩
  | page m number turnedAt =>
    refine ⟨h.1, ?_⟩
    show OnPage timeout w.now w.checkedAt m _ (some time) d.presence
    rw [hw.1, hw.2, hp]
    exact h.2.turn hrep htimeout hpos htime

/-- **Every step is what the user takes it for.** -/
theorem Agrees.step (h : Agrees oled timeout latest x s)
    (hrep : Represents latest x.device.presence)
    (hbutton : HoldsButton (pdMsToTicks presenceLongPressThresholdMs).toNat x)
    (hchecked : x.watch.checkedAt ≤ x.watch.now) (htimely : Timely x e)
    (htimeout : (pdMsToTicks readingTimeoutMs).toNat = timeout) (hpos : 0 < timeout)
    (hlt : timeout < 2 ^ 31) :
    Agrees oled timeout (nextShown latest (deviceAction x.device e.event))
      (watchedStep pdMsToTicks x e)
      (Machine.run (Shown.next timeout (pdMsToTicks presenceLongPressThresholdMs).toNat) s
        (userEvents x e)) := by
  cases e with
  | http m =>
    simp only [watchedStep, TimedEvent.event, deviceStep, deviceAction, userEvents]
    split_ifs
    · exact ⟨rfl, onPage_posted hrep m⟩
    · exact h
  | main time pressed =>
    obtain ⟨hnow, hnear, -⟩ := htimely
    have hmain := mainStep_pc pdMsToTicks (BitVec.ofNat 32 time) pressed x.device
    simp only [watchedStep, TimedEvent.event, deviceStep, mainStep, deviceAction, mainAction,
      userEvents] at hmain ⊢
    cases hpc : x.device.pc with
    | httpServerStart =>
      rw [hpc] at hmain
      exact h.quiet rfl hnow rfl ⟨hmain.1, fun _ => hpc⟩
    | startAcknowledge => exact ⟨presenceAcknowledge_idle hrep, by simp, by simp⟩
    | update => exact h.update hrep hlt hnow (hnear hpc) rfl rfl ⟨rfl, rfl⟩
    | sample | debounce | recordPress | measureRelease =>
      rw [hpc] at hmain
      exact h.quiet rfl hnow rfl ⟨hmain.1, fun hd => absurd (hmain.2 hd) MainPc.noConfusion⟩
    | acknowledge =>
      rw [Machine.run_cons, Machine.run_nil, Shown.next, if_pos (hbutton.long hpc)]
      exact ⟨presenceAcknowledge_idle hrep, by simp, by simp⟩
    | nextPage =>
      rw [Machine.run_cons, Machine.run_nil, Shown.next, if_neg (hbutton.short hpc)]
      exact h.nextPage hrep htimeout hpos (hchecked.trans hnow) rfl rfl ⟨rfl, rfl⟩

theorem checkedAt_step (h : x.watch.checkedAt ≤ x.watch.now) (htimely : Timely x e) :
    (watchedStep pdMsToTicks x e).watch.checkedAt ≤ (watchedStep pdMsToTicks x e).watch.now := by
  cases e with
  | http m => exact h
  | main time pressed =>
    simp only [watchedStep, Watch.next]
    split_ifs
    · exact le_rfl
    · exact h.trans htimely.1

theorem holdsButton_start (start : ℕ) : HoldsButton threshold (watchStart oled start) where
  pressStarted hwas := by cases hwas
  pressedAt := Nat.zero_le _
  measured hpc := by cases hpc
  long hpc := by cases hpc
  short hpc := by cases hpc

/-- What the loop and the presence module know after a timely run. -/
theorem watchedRun_agrees (hpos : 0 < (pdMsToTicks readingTimeoutMs).toNat)
    (hlt : (pdMsToTicks readingTimeoutMs).toNat < 2 ^ 31) {start : ℕ}
    (htimely : TimelyRun pdMsToTicks (watchStart oled start) events) :
    let x := watchedRun pdMsToTicks (watchStart oled start) events
    Agrees oled (pdMsToTicks readingTimeoutMs).toNat
        (lastShown (deviceTrace pdMsToTicks (deviceStart oled) (events.map TimedEvent.event))) x
        (shown (pdMsToTicks readingTimeoutMs).toNat
          (pdMsToTicks presenceLongPressThresholdMs).toNat
          (userTrace pdMsToTicks (watchStart oled start) events)) ∧
      HoldsButton (pdMsToTicks presenceLongPressThresholdMs).toNat x ∧
      x.watch.checkedAt ≤ x.watch.now := by
  intro x
  induction events using List.reverseRecOn with
  | nil =>
    refine ⟨⟨?_, rfl⟩, holdsButton_start start, le_rfl⟩
    exact congrArg PresenceStateModel.state ((presenceStart_represents oled).none_shown rfl)
  | append_singleton events e ih =>
    obtain ⟨hbefore, he⟩ := timelyRun_concat.mp htimely
    obtain ⟨hagrees, hbutton, hchecked⟩ := ih hbefore
    have hdevice : (watchedRun pdMsToTicks (watchStart oled start) events).device =
        deviceRun pdMsToTicks (deviceStart oled) (events.map TimedEvent.event) :=
      watchedRun_device
    have hrep : Represents _ (deviceRun pdMsToTicks (deviceStart oled)
        (events.map TimedEvent.event)).presence :=
      deviceRun_represents pdMsToTicks (presenceStart_represents oled) _
    have hnext := hagrees.step (by rw [hdevice]; exact hrep) hbutton hchecked he rfl hpos hlt
    show Agrees _ _ _ (watchedRun _ _ (events ++ [e])) _ ∧
      HoldsButton _ (watchedRun _ _ (events ++ [e])) ∧ _
    rw [watchedRun_concat, userTrace_concat, List.map_append, List.map_singleton,
      deviceTrace_concat, lastShown_concat, ← hdevice, shown, Machine.run_append]
    refine ⟨hnext, hbutton.step he, ?_⟩
    show (watchedRun _ _ (events ++ [e])).watch.checkedAt ≤
      (watchedRun _ _ (events ++ [e])).watch.now
    rw [watchedRun_concat]
    exact checkedAt_step hchecked he

/-- **The device in use**: in every timely run, whatever the tasks do in which order, the panel
shows what the user expects from what has been posted, how long the button was held, and how much
time has passed since. -/
theorem deviceRun_inUse (pdMsToTicks : ℕ → TickType)
    (hpos : 0 < (pdMsToTicks readingTimeoutMs).toNat)
    (hlt : (pdMsToTicks readingTimeoutMs).toNat < 2 ^ 31) (oled : Oled) (start : ℕ)
    (events : List TimedEvent) (htimely : TimelyRun pdMsToTicks (watchStart oled start) events) :
    glass (deviceRun pdMsToTicks (deviceStart oled)
        (events.map TimedEvent.event)).presence.oled.panel =
      (shown (pdMsToTicks readingTimeoutMs).toNat
        (pdMsToTicks presenceLongPressThresholdMs).toNat
        (userTrace pdMsToTicks (watchStart oled start) events)).frame (glass oled.panel) := by
  obtain ⟨hagrees, -, -⟩ := watchedRun_agrees hpos hlt htimely
  have hdevice : (watchedRun pdMsToTicks (watchStart oled start) events).device =
      deviceRun pdMsToTicks (deviceStart oled) (events.map TimedEvent.event) := watchedRun_device
  have hsettled := deviceRun_settled pdMsToTicks oled (events.map TimedEvent.event)
  rw [← lastShown_filter] at hagrees
  rw [← hdevice] at hsettled ⊢
  exact hagrees.glass hsettled

/-- A message is posted, and the button is pressed for 150 ms. -/
def turnBuildMessage : List TimedEvent :=
  [.main 0 false, .main 0 false, .main 1 false, .http buildMessage, .main 1 true, .main 4 true,
    .main 4 true, .main 6 true, .main 6 false, .main 9 false, .main 19 false, .main 19 false]

theorem deviceRun_inUse_turnBuildMessage :
    glass (deviceRun pdMsToTicks100Hz (deviceStart oledPowerUp)
        (turnBuildMessage.map TimedEvent.event)).presence.oled.panel =
      (shown (pdMsToTicks100Hz readingTimeoutMs).toNat
        (pdMsToTicks100Hz presenceLongPressThresholdMs).toNat
        (userTrace pdMsToTicks100Hz (watchStart oledPowerUp 0) turnBuildMessage)).frame
          (glass oledPowerUp.panel) :=
  deviceRun_inUse pdMsToTicks100Hz (by decide) (by decide) oledPowerUp 0 turnBuildMessage
    (by decide)

example : userTrace pdMsToTicks100Hz (watchStart oledPowerUp 0) turnBuildMessage =
    [.started, .checked 1, .posted buildMessage, .checked 6, .released 15 19] := rfl

end PresenceDevice
