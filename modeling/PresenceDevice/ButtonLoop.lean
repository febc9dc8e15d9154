import PresenceDevice.AppMain
import PresenceDevice.Library.Loop
import PresenceDevice.Library.TickCounter

/-!
# The button

A pass of the loop of `app_main` samples the button, and samples it again after a delay if the
first sample differs from `was_pressed`. If the second one differs too, the pass accepts an edge: a
press records the tick counter, a release compares it with the recorded press and calls into the
presence module. The other task may show messages in between, which does not touch the variables of
the loop.

`press_started` belongs to the press that is held, so the difference of the two readings is the
true time between the edges, as long as that is less than a full turn of the counter.

## Main definitions

* `LoopPass`, `loopPass`, `passEvents`: a pass of the loop, and what it does with the button
* `passCalls`, `applyCall`: the calls of a pass, and what they do to the presence module
* `acceptedEdges`: the edges accepted along a run
* `ButtonContract`: what the loop makes of presses and releases

## Main results

* `loopPass_cases`: what a pass does
* `buttonLoop_contract`: each accepted release is one call, classified by the true time
-/

namespace PresenceDevice

/-- What a pass of the loop meets: the two samples of the button, the true time at which an
accepted edge reads the tick counter, the readings inside the calls to the presence module, and the
messages that the other task shows in front of each step. -/
structure LoopPass where
  isPressed : Bool
  stablePressed : Bool
  time : ℕ
  ticks : MainPc → TickType
  messages : MainPc → List AgentMessage

/-- What a step of `app_main` does with the button: it accepts an edge, or calls into the presence
module for one. -/
inductive ButtonEvent
  | pressAccepted
  | releaseAccepted
  | presenceAcknowledge
  | presenceNextPage
  deriving DecidableEq

/-- The direction of an accepted edge, `true` for a press. -/
def ButtonEvent.edge : ButtonEvent → Option Bool
  | .pressAccepted => some true
  | .releaseAccepted => some false
  | .presenceAcknowledge | .presenceNextPage => none

variable (pdMsToTicks : ℕ → TickType)

/-- The reading of the tick counter at a step. -/
def LoopPass.tick (i : LoopPass) : MainPc → TickType
  | .recordPress | .measureRelease => BitVec.ofNat 32 i.time
  | pc => i.ticks pc

/-- The position of the button at a step. -/
def LoopPass.sample (i : LoopPass) : MainPc → Bool
  | .debounce => i.stablePressed
  | _ => i.isPressed

/-- One step of `app_main` in the pass `i`, behind the messages of the other task. -/
def passTurn (i : LoopPass) (d : Device) : Device :=
  deviceRun pdMsToTicks d
    ((i.messages d.pc).map .http ++ [.main (i.tick d.pc) (i.sample d.pc)])

/-- The next step of the pass, until the loop is back at its first statement. -/
def passStep (i : LoopPass) (d : Device) : Option Device :=
  if d.pc = .update then none else some (passTurn pdMsToTicks i d)

/-- One pass of the loop of `app_main`, which has at most five steps. -/
def loopPass (d : Device) (i : LoopPass) : Device :=
  Loop.run (passStep pdMsToTicks i) 4 (passTurn pdMsToTicks i d)

/-- What the next step of `app_main` does with the button. -/
def buttonEvent (d : Device) : List ButtonEvent :=
  match d.pc with
  | .recordPress => [.pressAccepted]
  | .measureRelease => [.releaseAccepted]
  | .acknowledge => [.presenceAcknowledge]
  | .nextPage => [.presenceNextPage]
  | _ => []

/-- What one pass does with the button. -/
def passEvents (d : Device) (i : LoopPass) : List ButtonEvent :=
  buttonEvent d ++ Loop.log (passStep pdMsToTicks i) (fun d _ => buttonEvent d) 4
    (passTurn pdMsToTicks i d)

/-- The edges accepted in one pass. -/
def passEdges (d : Device) (i : LoopPass) : List Bool :=
  (passEvents pdMsToTicks d i).filterMap ButtonEvent.edge

/-- The calls made for the button in one pass. -/
def passCalls (d : Device) (i : LoopPass) : List ButtonEvent :=
  (passEvents pdMsToTicks d i).filter fun e => e.edge.isNone

/-- The steps of a pass behind its first. -/
def passSteps (d : Device) (i : LoopPass) : List MainPc :=
  Loop.log (passStep pdMsToTicks i) (fun d _ => [d.pc]) 4 (passTurn pdMsToTicks i d)

/-- What a call does to the presence module, at a reading of the tick counter. -/
def applyCall (tick : TickType) (p : Presence) : ButtonEvent → Presence
  | .presenceAcknowledge => presenceAcknowledge p
  | .presenceNextPage => presenceNextPage pdMsToTicks tick p
  | .pressAccepted | .releaseAccepted => p

/-- Messages of the other task, which shows none before its registration. -/
def showAll (registered : Bool) (messages : List AgentMessage) (p : Presence) : Presence :=
  if registered then messages.foldl (fun p m => presenceShowMessage (some m) p) p else p

/-- The loop after a number of passes. -/
def buttonLoop (d : Device) (passes : List LoopPass) : Device :=
  Machine.run (loopPass pdMsToTicks) d passes

/-- The edges accepted in a number of passes. -/
def acceptedEdges (d : Device) (passes : List LoopPass) : List Bool :=
  (Machine.trace (loopPass pdMsToTicks) (passEdges pdMsToTicks) d passes).flatten

/-- The device at the start of the loop, with nothing pressed. -/
structure AtLoopStart (d : Device) : Prop where
  pc : d.pc = .update
  wasPressed : d.wasPressed = false

/-- `app_main` starts the loop so. -/
theorem atLoopStart_of_startAcknowledge (pdMsToTicks : ℕ → TickType) {d : Device}
    (h : d.pc = .startAcknowledge) (tick : TickType) (pressed : Bool) :
    AtLoopStart (mainStep pdMsToTicks tick pressed d) := by
  rw [mainStep, h]
  exact ⟨rfl, rfl⟩

/-- What the loop makes of presses and releases in a run of passes. -/
structure ButtonContract (d : Device) (passes : List LoopPass) : Prop where
  /-- Presses and releases alternate, a press first. -/
  alternate : ∀ k edge, (acceptedEdges pdMsToTicks d passes)[k]? = some edge →
    edge = decide (k % 2 = 0)
  /-- A pass accepts at most one edge. It makes one call if that is a release, and none
  otherwise. -/
  calls : ∀ pre i post, passes = pre ++ i :: post →
    (passEdges pdMsToTicks (buttonLoop pdMsToTicks d pre) i).length ≤ 1 ∧
      (passCalls pdMsToTicks (buttonLoop pdMsToTicks d pre) i).length =
        (passEdges pdMsToTicks (buttonLoop pdMsToTicks d pre) i).count false
  /-- A pass one of whose samples is `was_pressed` accepts nothing and changes nothing. -/
  glitch : ∀ pre i post, passes = pre ++ i :: post →
    i.stablePressed = (buttonLoop pdMsToTicks d pre).wasPressed ∨
      i.isPressed = (buttonLoop pdMsToTicks d pre).wasPressed →
    (buttonLoop pdMsToTicks d (pre ++ [i])).wasPressed =
        (buttonLoop pdMsToTicks d pre).wasPressed ∧
      (buttonLoop pdMsToTicks d (pre ++ [i])).pressStarted =
        (buttonLoop pdMsToTicks d pre).pressStarted ∧
      passEvents pdMsToTicks (buttonLoop pdMsToTicks d pre) i = []
  /-- Any other pass accepts the edge that its samples show. -/
  accepted : ∀ pre i post, passes = pre ++ i :: post →
    i.stablePressed ≠ (buttonLoop pdMsToTicks d pre).wasPressed →
    i.isPressed ≠ (buttonLoop pdMsToTicks d pre).wasPressed →
      passEdges pdMsToTicks (buttonLoop pdMsToTicks d pre) i = [i.stablePressed]
  /-- A release is classified by the true time since the press before it. -/
  classified : ∀ pre j mid i post, passes = pre ++ j :: (mid ++ i :: post) →
    passEdges pdMsToTicks (buttonLoop pdMsToTicks d pre) j = [true] →
    acceptedEdges pdMsToTicks (buttonLoop pdMsToTicks d (pre ++ [j])) mid = [] →
    passEdges pdMsToTicks (buttonLoop pdMsToTicks d (pre ++ j :: mid)) i = [false] →
    i.time - j.time < 2 ^ 32 →
      passCalls pdMsToTicks (buttonLoop pdMsToTicks d (pre ++ j :: mid)) i =
        [if (pdMsToTicks presenceLongPressThresholdMs).toNat ≤ i.time - j.time
          then .presenceAcknowledge else .presenceNextPage]
  /-- The calls are what the loop does to the presence module, but for the update at its start and
  the messages of the other task. -/
  effect : ∀ pre i post, passes = pre ++ i :: post →
    (buttonLoop pdMsToTicks d (pre ++ [i])).presence =
      (passCalls pdMsToTicks (buttonLoop pdMsToTicks d pre) i).foldl
        (applyCall pdMsToTicks (i.ticks .nextPage))
        (showAll d.registered
          ((passSteps pdMsToTicks (buttonLoop pdMsToTicks d pre) i).flatMap i.messages)
          (presenceUpdate (i.ticks .update)
            (showAll d.registered (i.messages .update)
              (buttonLoop pdMsToTicks d pre).presence)))

variable {pdMsToTicks} {d : Device} {i : LoopPass}

/-! ### Messages of the other task -/

theorem showAll_append (registered : Bool) (first second : List AgentMessage) (p : Presence) :
    showAll registered (first ++ second) p =
      showAll registered second (showAll registered first p) := by
  cases registered with
  | false => rfl
  | true => exact List.foldl_append

/-- Messages only touch the presence module. -/
theorem deviceRun_messages (d : Device) (messages : List AgentMessage) :
    deviceRun pdMsToTicks d (messages.map .http) =
      { d with presence := showAll d.registered messages d.presence } := by
  induction messages generalizing d with
  | nil =>
    obtain ⟨pc, wasPressed, pressStarted, registered, p⟩ := d
    cases registered <;> rfl
  | cons m messages ih =>
    obtain ⟨pc, wasPressed, pressStarted, registered, p⟩ := d
    cases registered with
    | false => exact ih _
    | true => exact ih _

/-! ### One step -/

/-- The program counter and the variables of the loop. -/
structure AtStep (d : Device) (pc : MainPc) (wasPressed : Bool) (pressStarted : TickType) :
    Prop where
  pc : d.pc = pc
  wasPressed : d.wasPressed = wasPressed
  pressStarted : d.pressStarted = pressStarted

variable {pc : MainPc} {was : Bool} {started : TickType}

/-- Messages do not touch the main task. -/
theorem AtStep.messages (h : AtStep d pc was started) (messages : List AgentMessage) :
    AtStep (deviceRun pdMsToTicks d (messages.map .http)) pc was started := by
  rw [deviceRun_messages]
  exact ⟨h.pc, h.wasPressed, h.pressStarted⟩

theorem passTurn_eq (pdMsToTicks : ℕ → TickType) (h : AtStep d pc was started) (i : LoopPass) :
    ∃ d', AtStep d' pc was started ∧
      passTurn pdMsToTicks i d = mainStep pdMsToTicks (i.tick pc) (i.sample pc) d' := by
  refine ⟨deviceRun pdMsToTicks d ((i.messages pc).map .http), h.messages _, ?_⟩
  rw [passTurn, h.pc, deviceRun_concat, deviceStep]

theorem passTurn_update (pdMsToTicks : ℕ → TickType) (i : LoopPass)
    (h : AtStep d .update was started) : AtStep (passTurn pdMsToTicks i d) .sample was started := by
  obtain ⟨d', ⟨hpc, hwas, hstarted⟩, heq⟩ := passTurn_eq pdMsToTicks h i
  rw [heq, mainStep, hpc]
  exact ⟨rfl, hwas, hstarted⟩

theorem passTurn_sample (pdMsToTicks : ℕ → TickType) (i : LoopPass)
    (h : AtStep d .sample was started) :
    AtStep (passTurn pdMsToTicks i d) (if i.isPressed ≠ was then .debounce else .update) was
      started := by
  obtain ⟨d', ⟨hpc, hwas, hstarted⟩, heq⟩ := passTurn_eq pdMsToTicks h i
  rw [heq, mainStep, hpc]
  exact ⟨by rw [hwas]; rfl, hwas, hstarted⟩

theorem passTurn_debounce (pdMsToTicks : ℕ → TickType) (i : LoopPass)
    (h : AtStep d .debounce was started) :
    AtStep (passTurn pdMsToTicks i d)
      (if i.stablePressed ≠ was then
        if i.stablePressed then .recordPress else .measureRelease
      else .update) was started := by
  obtain ⟨d', ⟨hpc, hwas, hstarted⟩, heq⟩ := passTurn_eq pdMsToTicks h i
  rw [heq, mainStep, hpc]
  exact ⟨by rw [hwas]; rfl, hwas, hstarted⟩

theorem passTurn_recordPress (pdMsToTicks : ℕ → TickType) (i : LoopPass)
    (h : AtStep d .recordPress was started) :
    AtStep (passTurn pdMsToTicks i d) .update true (BitVec.ofNat 32 i.time) := by
  obtain ⟨d', ⟨hpc, hwas, hstarted⟩, heq⟩ := passTurn_eq pdMsToTicks h i
  rw [heq, mainStep, hpc]
  exact ⟨rfl, rfl, rfl⟩

/-- The difference of the two readings is that of a long press. -/
def LongPress (pdMsToTicks : ℕ → TickType) (time : ℕ) (pressStarted : TickType) : Prop :=
  BitVec.ofNat 32 time - pressStarted ≥ pdMsToTicks presenceLongPressThresholdMs

instance (pdMsToTicks : ℕ → TickType) (time : ℕ) (pressStarted : TickType) :
    Decidable (LongPress pdMsToTicks time pressStarted) :=
  inferInstanceAs (Decidable (_ ≥ _))

theorem passTurn_measureRelease (pdMsToTicks : ℕ → TickType) (i : LoopPass)
    (h : AtStep d .measureRelease was started) :
    AtStep (passTurn pdMsToTicks i d)
      (if LongPress pdMsToTicks i.time started then .acknowledge else .nextPage) was started := by
  obtain ⟨d', ⟨hpc, hwas, hstarted⟩, heq⟩ := passTurn_eq pdMsToTicks h i
  rw [heq, mainStep, hpc]
  exact ⟨by rw [hstarted]; rfl, hwas, hstarted⟩

/-- The call of a release ends the pass, whichever it is. -/
theorem passTurn_call (pdMsToTicks : ℕ → TickType) (i : LoopPass) (h : AtStep d pc was started)
    (hcall : pc = .acknowledge ∨ pc = .nextPage) :
    AtStep (passTurn pdMsToTicks i d) .update false started := by
  obtain ⟨d', ⟨hpc, hwas, hstarted⟩, heq⟩ := passTurn_eq pdMsToTicks h i
  rw [heq, mainStep, hpc]
  rcases hcall with rfl | rfl
  · exact ⟨rfl, rfl, hstarted⟩
  · exact ⟨rfl, rfl, hstarted⟩

/-! ### What a step does to the presence module -/

/-- A step that makes no call leaves the presence module to the other task. -/
def IsQuiet (pc : MainPc) : Prop :=
  pc = .sample ∨ pc = .debounce ∨ pc = .recordPress ∨ pc = .measureRelease

theorem passTurn_quiet (pdMsToTicks : ℕ → TickType) (i : LoopPass) (h : IsQuiet d.pc) :
    (passTurn pdMsToTicks i d).presence = showAll d.registered (i.messages d.pc) d.presence ∧
      (passTurn pdMsToTicks i d).registered = d.registered := by
  rw [passTurn, deviceRun_concat, deviceRun_messages, deviceStep, mainStep]
  obtain hpc | hpc | hpc | hpc := h <;> simp [hpc]

theorem passTurn_update_presence (pdMsToTicks : ℕ → TickType) (i : LoopPass)
    (h : d.pc = .update) : (passTurn pdMsToTicks i d).presence = presenceUpdate (i.ticks .update)
        (showAll d.registered (i.messages .update) d.presence) ∧
      (passTurn pdMsToTicks i d).registered = d.registered := by
  rw [passTurn, deviceRun_concat, deviceRun_messages, deviceStep, mainStep, h]
  exact ⟨rfl, rfl⟩

theorem passTurn_call_presence (pdMsToTicks : ℕ → TickType) (i : LoopPass)
    (hcall : d.pc = .acknowledge ∨ d.pc = .nextPage) :
    (passTurn pdMsToTicks i d).presence =
        (buttonEvent d).foldl (applyCall pdMsToTicks (i.ticks .nextPage))
          (showAll d.registered (i.messages d.pc) d.presence) ∧
      (passTurn pdMsToTicks i d).registered = d.registered := by
  rw [passTurn, deviceRun_concat, deviceRun_messages, deviceStep, mainStep, buttonEvent]
  obtain hpc | hpc := hcall
  · rw [hpc]
    exact ⟨rfl, rfl⟩
  · rw [hpc]
    exact ⟨rfl, rfl⟩

/-! ### One pass -/

/-- The calls among some events. -/
def callsOf (events : List ButtonEvent) : List ButtonEvent := events.filter fun e => e.edge.isNone

/-- The rest of a pass: where it ends, what it does on the way, and what this does to the presence
module. -/
structure RestOfPass (pdMsToTicks : ℕ → TickType) (i : LoopPass) (fuel : ℕ) (d : Device)
    (was : Bool) (started : TickType) (events : List ButtonEvent) : Prop where
  ends : AtStep (Loop.run (passStep pdMsToTicks i) fuel d) .update was started
  log : Loop.log (passStep pdMsToTicks i) (fun d _ => buttonEvent d) fuel d = events
  registered : (Loop.run (passStep pdMsToTicks i) fuel d).registered = d.registered
  presence : (Loop.run (passStep pdMsToTicks i) fuel d).presence =
    (callsOf events).foldl (applyCall pdMsToTicks (i.ticks .nextPage))
      (showAll d.registered
        ((Loop.log (passStep pdMsToTicks i) (fun d _ => [d.pc]) fuel d).flatMap i.messages)
        d.presence)

variable {fuel : ℕ} {was' : Bool} {started' : TickType} {events : List ButtonEvent}

theorem restOfPass_update (pdMsToTicks : ℕ → TickType) (i : LoopPass)
    (h : AtStep d .update was started) (fuel : ℕ) :
    RestOfPass pdMsToTicks i fuel d was started [] := by
  have hexit : passStep pdMsToTicks i d = none := if_pos h.pc
  have hnone : showAll d.registered [] d.presence = d.presence := by
    cases d.registered <;> rfl
  constructor
  case ends =>
    rw [Loop.run_of_exit hexit]
    exact h
  case log => exact Loop.log_of_exit hexit fuel
  case registered => rw [Loop.run_of_exit hexit]
  case presence =>
    rw [Loop.run_of_exit hexit, Loop.log_of_exit hexit, List.flatMap_nil, hnone]
    rfl

theorem passStep_of_ne (pdMsToTicks : ℕ → TickType) (i : LoopPass) (h : d.pc ≠ .update) :
    passStep pdMsToTicks i d = some (passTurn pdMsToTicks i d) := if_neg h

/-- A quiet step comes in front of the rest. -/
theorem RestOfPass.turn (h : RestOfPass pdMsToTicks i fuel (passTurn pdMsToTicks i d) was started
    events) (hd : AtStep d pc was' started') (hquiet : IsQuiet pc) :
    RestOfPass pdMsToTicks i (fuel + 1) d was started (buttonEvent d ++ events) := by
  rw [← hd.pc] at hquiet
  obtain ⟨hpresence, hregistered⟩ := passTurn_quiet pdMsToTicks i hquiet
  have hne : d.pc ≠ .update := by
    obtain hpc | hpc | hpc | hpc := hquiet <;> rw [hpc] <;> exact MainPc.noConfusion
  have hnocall : callsOf (buttonEvent d ++ events) = callsOf events := by
    obtain hpc | hpc | hpc | hpc := hquiet <;> rw [buttonEvent, hpc] <;> rfl
  have hstep := passStep_of_ne pdMsToTicks i hne
  constructor
  case ends =>
    rw [Loop.run_succ_of_step hstep]
    exact h.ends
  case log => rw [Loop.log_succ_of_step hstep, h.log]
  case registered => rw [Loop.run_succ_of_step hstep, h.registered, hregistered]
  case presence =>
    rw [Loop.run_succ_of_step hstep, Loop.log_succ_of_step hstep, h.presence, hregistered,
      hpresence, hnocall, List.flatMap_append, showAll_append, List.flatMap_singleton]

/-- The call for a release is the last step of its pass. -/
theorem restOfPass_call (pdMsToTicks : ℕ → TickType) (i : LoopPass) (h : AtStep d pc was started)
    (hcall : pc = .acknowledge ∨ pc = .nextPage) (fuel : ℕ) :
    RestOfPass pdMsToTicks i (fuel + 1) d false started (buttonEvent d) := by
  have hturn := passTurn_call pdMsToTicks i h hcall
  have hend := restOfPass_update pdMsToTicks i hturn fuel
  rw [← h.pc] at hcall
  obtain ⟨hpresence, hregistered⟩ := passTurn_call_presence pdMsToTicks i hcall
  have hne : d.pc ≠ .update := by
    obtain hpc | hpc := hcall <;> rw [hpc] <;> exact MainPc.noConfusion
  have hcalls : callsOf (buttonEvent d) = buttonEvent d := by
    obtain hpc | hpc := hcall <;> rw [buttonEvent, hpc] <;> rfl
  have hstep := passStep_of_ne pdMsToTicks i hne
  have hexit : passStep pdMsToTicks i (passTurn pdMsToTicks i d) = none := if_pos hturn.pc
  constructor
  case ends =>
    rw [Loop.run_succ_of_step hstep]
    exact hend.ends
  case log => rw [Loop.log_succ_of_step hstep, hend.log, List.append_nil]
  case registered => rw [Loop.run_succ_of_step hstep, hend.registered, hregistered]
  case presence =>
    rw [Loop.run_succ_of_step hstep, Loop.log_succ_of_step hstep, Loop.run_of_exit hexit,
      Loop.log_of_exit hexit, hpresence, hcalls, List.append_nil, List.flatMap_singleton]

/-- A whole pass: where it ends, what it does on the way, and what this does to the presence
module. -/
structure PassDone (pdMsToTicks : ℕ → TickType) (i : LoopPass) (d : Device) (was : Bool)
    (started : TickType) (events : List ButtonEvent) : Prop where
  ends : AtStep (loopPass pdMsToTicks d i) .update was started
  log : passEvents pdMsToTicks d i = events
  registered : (loopPass pdMsToTicks d i).registered = d.registered
  presence : (loopPass pdMsToTicks d i).presence =
    (callsOf events).foldl (applyCall pdMsToTicks (i.ticks .nextPage))
      (showAll d.registered ((passSteps pdMsToTicks d i).flatMap i.messages)
        (presenceUpdate (i.ticks .update)
          (showAll d.registered (i.messages .update) d.presence)))

theorem loopPass_of_rest (h : AtStep d .update was started)
    (hrest : RestOfPass pdMsToTicks i 4 (passTurn pdMsToTicks i d) was' started' events) :
    PassDone pdMsToTicks i d was' started' events := by
  obtain ⟨hpresence, hregistered⟩ := passTurn_update_presence pdMsToTicks i h.pc
  constructor
  case ends => exact hrest.ends
  case log =>
    rw [passEvents, hrest.log, buttonEvent, h.pc]
    rfl
  case registered => exact hrest.registered.trans hregistered
  case presence =>
    rw [loopPass, hrest.presence, hregistered, hpresence]
    rfl

/-- A pass one of whose samples is `was_pressed` does nothing with the button. -/
theorem loopPass_of_glitch (pdMsToTicks : ℕ → TickType) (h : AtStep d .update was started)
    (hsame : i.stablePressed = was ∨ i.isPressed = was) :
    PassDone pdMsToTicks i d was started [] := by
  apply loopPass_of_rest h
  have h1 := passTurn_update pdMsToTicks i h
  have h2 := passTurn_sample pdMsToTicks i h1
  by_cases hfirst : i.isPressed = was
  · rw [if_neg (not_not.mpr hfirst)] at h2
    have hrest := (restOfPass_update pdMsToTicks i h2 3).turn h1 (Or.inl rfl)
    rwa [buttonEvent, h1.pc] at hrest
  · rw [if_pos hfirst] at h2
    have h3 := passTurn_debounce pdMsToTicks i h2
    rw [if_neg (not_not.mpr (hsame.resolve_right hfirst))] at h3
    have hend := restOfPass_update pdMsToTicks i h3 2
    have hrest := (hend.turn h2 (Or.inr (Or.inl rfl))).turn h1 (Or.inl rfl)
    rwa [buttonEvent, buttonEvent, h1.pc, h2.pc] at hrest

/-- A press records the counter. -/
theorem loopPass_of_press (pdMsToTicks : ℕ → TickType) (h : AtStep d .update false started)
    (hfirst : i.isPressed = true) (hsecond : i.stablePressed = true) :
    PassDone pdMsToTicks i d true (BitVec.ofNat 32 i.time) [.pressAccepted] := by
  apply loopPass_of_rest h
  have h1 := passTurn_update pdMsToTicks i h
  have h2 := passTurn_sample pdMsToTicks i h1
  rw [if_pos (by simp [hfirst])] at h2
  have h3 := passTurn_debounce pdMsToTicks i h2
  rw [if_pos (by simp [hsecond]), if_pos hsecond] at h3
  have h4 := passTurn_recordPress pdMsToTicks i h3
  have hend := restOfPass_update pdMsToTicks i h4 1
  have hrest := (hend.turn h3 (by simp [IsQuiet])).turn h2 (by simp [IsQuiet])
  have hpass := hrest.turn h1 (by simp [IsQuiet])
  rwa [buttonEvent, buttonEvent, buttonEvent, h1.pc, h2.pc, h3.pc] at hpass

/-- The call for a release at `time`. -/
def releaseCall (pdMsToTicks : ℕ → TickType) (time : ℕ) (pressStarted : TickType) : ButtonEvent :=
  if LongPress pdMsToTicks time pressStarted then .presenceAcknowledge else .presenceNextPage

/-- A release makes one call, and leaves `press_started` as it is. -/
theorem loopPass_of_release (pdMsToTicks : ℕ → TickType) (h : AtStep d .update true started)
    (hfirst : i.isPressed = false) (hsecond : i.stablePressed = false) :
    PassDone pdMsToTicks i d false started
      [.releaseAccepted, releaseCall pdMsToTicks i.time started] := by
  apply loopPass_of_rest h
  have h1 := passTurn_update pdMsToTicks i h
  have h2 := passTurn_sample pdMsToTicks i h1
  rw [if_pos (by simp [hfirst])] at h2
  have h3 := passTurn_debounce pdMsToTicks i h2
  rw [if_pos (by simp [hsecond]), if_neg (by simp [hsecond])] at h3
  have h4 := passTurn_measureRelease pdMsToTicks i h3
  have hcall := restOfPass_call pdMsToTicks i h4 (by split_ifs <;> simp) 0
  have hrest := (hcall.turn h3 (by simp [IsQuiet])).turn h2 (by simp [IsQuiet])
  have hpass := hrest.turn h1 (by simp [IsQuiet])
  rw [buttonEvent, buttonEvent, buttonEvent, buttonEvent, h1.pc, h2.pc, h3.pc, h4.pc] at hpass
  rw [releaseCall]
  split_ifs at hpass ⊢ with hlong
  · exact hpass
  · exact hpass

/-- What a pass does, by its samples. -/
theorem loopPass_cases (pdMsToTicks : ℕ → TickType) (hpc : d.pc = .update) (i : LoopPass) :
    (PassDone pdMsToTicks i d d.wasPressed d.pressStarted [] ∧
        (i.stablePressed = d.wasPressed ∨ i.isPressed = d.wasPressed)) ∨
      (PassDone pdMsToTicks i d true (BitVec.ofNat 32 i.time) [.pressAccepted] ∧
        d.wasPressed = false ∧ i.stablePressed = true ∧ i.isPressed = true) ∨
      (PassDone pdMsToTicks i d false d.pressStarted
          [.releaseAccepted, releaseCall pdMsToTicks i.time d.pressStarted] ∧
        d.wasPressed = true ∧ i.stablePressed = false ∧ i.isPressed = false) := by
  have h : AtStep d .update d.wasPressed d.pressStarted := ⟨hpc, rfl, rfl⟩
  by_cases hsame : i.stablePressed = d.wasPressed ∨ i.isPressed = d.wasPressed
  · exact Or.inl ⟨loopPass_of_glitch pdMsToTicks h hsame, hsame⟩
  · obtain ⟨hsecond, hfirst⟩ := not_or.mp hsame
    right
    cases hwas : d.wasPressed with
    | false =>
      rw [hwas] at h hsecond hfirst
      have hp := Bool.eq_true_of_not_eq_false hfirst
      have hs := Bool.eq_true_of_not_eq_false hsecond
      exact Or.inl ⟨loopPass_of_press pdMsToTicks h hp hs, rfl, hs, hp⟩
    | true =>
      rw [hwas] at h hsecond hfirst
      have hp := Bool.eq_false_of_not_eq_true hfirst
      have hs := Bool.eq_false_of_not_eq_true hsecond
      exact Or.inr ⟨loopPass_of_release pdMsToTicks h hp hs, rfl, hs, hp⟩

theorem passEdges_of_release {time : ℕ} (h : passEvents pdMsToTicks d i =
    [.releaseAccepted, releaseCall pdMsToTicks time started]) :
    passEdges pdMsToTicks d i = [false] := by
  rw [passEdges, h, releaseCall]
  split_ifs <;> rfl

theorem passCalls_of_release {time : ℕ} (h : passEvents pdMsToTicks d i =
    [.releaseAccepted, releaseCall pdMsToTicks time started]) :
    passCalls pdMsToTicks d i = [releaseCall pdMsToTicks time started] := by
  rw [passCalls, h, releaseCall]
  split_ifs <;> rfl

/-- Whatever a pass does to the presence module is in its calls. -/
theorem PassDone.effect (h : PassDone pdMsToTicks i d was started events) :
    (loopPass pdMsToTicks d i).presence = (passCalls pdMsToTicks d i).foldl
      (applyCall pdMsToTicks (i.ticks .nextPage))
      (showAll d.registered ((passSteps pdMsToTicks d i).flatMap i.messages)
        (presenceUpdate (i.ticks .update)
          (showAll d.registered (i.messages .update) d.presence))) := by
  rw [h.presence, passCalls, h.log]
  rfl

theorem loopPass_effect (pdMsToTicks : ℕ → TickType) (hpc : d.pc = .update) (i : LoopPass) :
    (loopPass pdMsToTicks d i).registered = d.registered ∧
    (loopPass pdMsToTicks d i).presence = (passCalls pdMsToTicks d i).foldl
      (applyCall pdMsToTicks (i.ticks .nextPage))
      (showAll d.registered ((passSteps pdMsToTicks d i).flatMap i.messages)
        (presenceUpdate (i.ticks .update)
          (showAll d.registered (i.messages .update) d.presence))) := by
  rcases loopPass_cases pdMsToTicks hpc i with ⟨hdone, -⟩ | ⟨hdone, -⟩ | ⟨hdone, -⟩
  · exact ⟨hdone.registered, hdone.effect⟩
  · exact ⟨hdone.registered, hdone.effect⟩
  · exact ⟨hdone.registered, hdone.effect⟩

/-- An accepted press records the counter. -/
theorem pressStarted_of_passEdges (hpc : d.pc = .update)
    (hedges : passEdges pdMsToTicks d i = [true]) :
    AtStep (loopPass pdMsToTicks d i) .update true (BitVec.ofNat 32 i.time) := by
  rcases loopPass_cases pdMsToTicks hpc i with ⟨hdone, -⟩ | ⟨hdone, -⟩ | ⟨hdone, -⟩
  · rw [passEdges, hdone.log] at hedges
    cases hedges
  · exact hdone.ends
  · rw [passEdges_of_release hdone.log] at hedges
    cases hedges

/-- An accepted release makes one call. -/
theorem passCalls_of_passEdges (hpc : d.pc = .update)
    (hedges : passEdges pdMsToTicks d i = [false]) :
    passCalls pdMsToTicks d i = [releaseCall pdMsToTicks i.time d.pressStarted] := by
  rcases loopPass_cases pdMsToTicks hpc i with ⟨hdone, -⟩ | ⟨hdone, -⟩ | ⟨hdone, -⟩
  · rw [passEdges, hdone.log] at hedges
    cases hedges
  · rw [passEdges, hdone.log] at hedges
    cases hedges
  · exact passCalls_of_release hdone.log

/-! ### A run of passes -/

/-- After the edges `edges`, the button counts as pressed if the last one was a press. -/
structure LoopInv (edges : List Bool) (d : Device) : Prop where
  pc : d.pc = .update
  wasPressed : d.wasPressed = decide (edges.length % 2 = 1)
  alternate : ∀ k edge, edges[k]? = some edge → edge = decide (k % 2 = 0)

theorem loopInv_start (h : AtLoopStart d) : LoopInv [] d where
  pc := h.pc
  wasPressed := h.wasPressed
  alternate k edge hk := by simp at hk

theorem LoopInv.pass {edges : List Bool} (h : LoopInv edges d) (pdMsToTicks : ℕ → TickType)
    (i : LoopPass) :
    LoopInv (edges ++ passEdges pdMsToTicks d i) (loopPass pdMsToTicks d i) := by
  -- an accepted edge goes where `was_pressed` is not
  have hedge : ∀ edge, d.wasPressed = !edge → ∀ k x, (edges ++ [edge])[k]? = some x →
      x = decide (k % 2 = 0) := by
    intro edge hwas k x hx
    rw [List.getElem?_append] at hx
    split_ifs at hx with hlt
    · exact h.alternate k x hx
    · rw [List.getElem?_singleton] at hx
      split_ifs at hx with hk
      obtain rfl := Option.some.inj hx
      obtain rfl : k = edges.length := by omega
      rw [← Bool.not_not edge, ← hwas, h.wasPressed]
      rcases Nat.mod_two_eq_zero_or_one edges.length with hmod | hmod <;> simp [hmod]
  rcases loopPass_cases pdMsToTicks h.pc i with ⟨⟨hat, hevents⟩, -⟩ | ⟨⟨hat, hevents⟩, hwas, -⟩ |
    ⟨⟨hat, hevents⟩, hwas, -⟩
  · rw [passEdges, hevents, List.filterMap_nil, List.append_nil]
    exact ⟨hat.pc, hat.wasPressed.trans h.wasPressed, h.alternate⟩
  · have hedges : passEdges pdMsToTicks d i = [true] := by
      rw [passEdges, hevents]
      rfl
    have hmod : ¬ edges.length % 2 = 1 := of_decide_eq_false (h.wasPressed.symm.trans hwas)
    rw [hedges]
    refine ⟨hat.pc, hat.wasPressed.trans ?_, hedge true hwas⟩
    rw [List.length_append, List.length_singleton, eq_comm, decide_eq_true_iff]
    omega
  · have hmod : edges.length % 2 = 1 := of_decide_eq_true (h.wasPressed.symm.trans hwas)
    rw [passEdges_of_release hevents]
    refine ⟨hat.pc, hat.wasPressed.trans ?_, hedge false hwas⟩
    rw [List.length_append, List.length_singleton, eq_comm, decide_eq_false_iff_not]
    omega

theorem buttonLoop_inv (pdMsToTicks : ℕ → TickType) (h : AtLoopStart d)
    (passes : List LoopPass) :
    LoopInv (acceptedEdges pdMsToTicks d passes) (buttonLoop pdMsToTicks d passes) := by
  refine Machine.trace_induction (I := fun t (d : Device) => LoopInv t.flatten d)
    (loopInv_start h) (fun t d i ih => ?_) passes
  rw [List.flatten_append, List.flatten_singleton]
  exact ih.pass pdMsToTicks i

/-- Without an accepted edge `press_started` stays. -/
theorem buttonLoop_pressStarted (pdMsToTicks : ℕ → TickType) (hpc : d.pc = .update)
    (passes : List LoopPass) (hnone : acceptedEdges pdMsToTicks d passes = []) :
    (buttonLoop pdMsToTicks d passes).pressStarted = d.pressStarted ∧
      (buttonLoop pdMsToTicks d passes).pc = .update := by
  induction passes generalizing d with
  | nil => exact ⟨rfl, hpc⟩
  | cons i passes ih =>
    rw [acceptedEdges, Machine.trace_cons, List.flatten_cons, List.append_eq_nil_iff] at hnone
    obtain ⟨hi, hrest⟩ := hnone
    rcases loopPass_cases pdMsToTicks hpc i with ⟨hdone, -⟩ | ⟨hdone, -⟩ | ⟨hdone, -⟩
    · obtain ⟨hstarted, hpc'⟩ := ih hdone.ends.pc hrest
      exact ⟨hstarted.trans hdone.ends.pressStarted, hpc'⟩
    · rw [passEdges, hdone.log] at hi
      cases hi
    · rw [passEdges, hdone.log] at hi
      cases hi

theorem buttonLoop_registered (pdMsToTicks : ℕ → TickType) (h : AtLoopStart d)
    (passes : List LoopPass) : (buttonLoop pdMsToTicks d passes).registered = d.registered := by
  induction passes using List.reverseRecOn with
  | nil => rfl
  | append_singleton passes i ih =>
    have hpass : buttonLoop pdMsToTicks d (passes ++ [i]) =
        loopPass pdMsToTicks (buttonLoop pdMsToTicks d passes) i := Machine.run_append ..
    rw [hpass, (loopPass_effect pdMsToTicks (buttonLoop_inv pdMsToTicks h passes).pc i).1, ih]

/-- On true times less than a turn apart, the difference of the readings is the true one. -/
theorem longPress_iff (pdMsToTicks : ℕ → TickType) {time start : ℕ} (hle : start ≤ time)
    (hlt : time - start < 2 ^ 32) :
    LongPress pdMsToTicks time (BitVec.ofNat 32 start) ↔
      (pdMsToTicks presenceLongPressThresholdMs).toNat ≤ time - start := by
  rw [LongPress, ge_iff_le, BitVec.le_def, TickCounter.toNat_sub_of_le hle hlt]

/-- **A release is classified by the true time since its press**, with no accepted edge between
them. -/
theorem passCalls_of_held {j : LoopPass} {mid : List LoopPass} (hpc : d.pc = .update)
    (hle : j.time ≤ i.time) (hlt : i.time - j.time < 2 ^ 32)
    (hj : passEdges pdMsToTicks d j = [true])
    (hmid : acceptedEdges pdMsToTicks (loopPass pdMsToTicks d j) mid = [])
    (hi : passEdges pdMsToTicks (buttonLoop pdMsToTicks (loopPass pdMsToTicks d j) mid) i =
      [false]) :
    passCalls pdMsToTicks (buttonLoop pdMsToTicks (loopPass pdMsToTicks d j) mid) i =
      [if (pdMsToTicks presenceLongPressThresholdMs).toNat ≤ i.time - j.time
        then .presenceAcknowledge else .presenceNextPage] := by
  have hpress := pressStarted_of_passEdges hpc hj
  obtain ⟨hstarted, hpc'⟩ := buttonLoop_pressStarted pdMsToTicks hpress.pc mid hmid
  rw [passCalls_of_passEdges hpc' hi, hstarted, hpress.pressStarted, releaseCall]
  simp only [longPress_iff pdMsToTicks hle hlt]

/-- **Each debounced press becomes one correctly classified action.** -/
theorem buttonLoop_contract (pdMsToTicks : ℕ → TickType) (d : Device) (h : AtLoopStart d)
    (passes : List LoopPass) (htimes : (passes.map LoopPass.time).Pairwise (· ≤ ·)) :
    ButtonContract pdMsToTicks d passes := by
  have hinv := buttonLoop_inv pdMsToTicks h
  have hconcat : ∀ pre i, buttonLoop pdMsToTicks d (pre ++ [i]) =
      loopPass pdMsToTicks (buttonLoop pdMsToTicks d pre) i := fun pre i =>
    Machine.run_append ..
  constructor
  case alternate => exact (hinv passes).alternate
  case calls =>
    intro pre i post _
    rcases loopPass_cases pdMsToTicks (hinv pre).pc i with ⟨⟨-, hevents⟩, -⟩ |
      ⟨⟨-, hevents⟩, -⟩ | ⟨⟨-, hevents⟩, -⟩
    · simp [passEdges, passCalls, hevents]
    · simp [passEdges, passCalls, hevents, ButtonEvent.edge]
    · rw [passEdges_of_release hevents, passCalls_of_release hevents]
      exact ⟨Nat.le_refl 1, rfl⟩
  case glitch =>
    intro pre i post _ hsame
    rw [hconcat]
    rcases loopPass_cases pdMsToTicks (hinv pre).pc i with ⟨⟨hat, hevents⟩, -⟩ |
      ⟨-, hwas, hsecond, hfirst⟩ | ⟨-, hwas, hsecond, hfirst⟩
    · exact ⟨hat.wasPressed, hat.pressStarted, hevents⟩
    · simp [hwas, hsecond, hfirst] at hsame
    · simp [hwas, hsecond, hfirst] at hsame
  case accepted =>
    intro pre i post _ hsecond hfirst
    rcases loopPass_cases pdMsToTicks (hinv pre).pc i with ⟨-, hsame⟩ |
      ⟨⟨-, hevents⟩, -, hstable, -⟩ | ⟨⟨-, hevents⟩, -, hstable, -⟩
    · exact absurd hsame (not_or.mpr ⟨hsecond, hfirst⟩)
    · rw [passEdges, hevents, hstable]
      rfl
    · rw [passEdges_of_release hevents, hstable]
  case classified =>
    intro pre j mid i post hpasses hj hmid hi hlt
    have hle : j.time ≤ i.time := by
      rw [hpasses, List.map_append, List.map_cons, List.map_append, List.map_cons] at htimes
      have hrest := (List.pairwise_append.mp htimes).2.1
      exact (List.pairwise_cons.mp hrest).1 i.time
        (List.mem_append_right _ (List.mem_cons_self ..))
    have hrun : buttonLoop pdMsToTicks d (pre ++ j :: mid) =
        buttonLoop pdMsToTicks (loopPass pdMsToTicks (buttonLoop pdMsToTicks d pre) j) mid := by
      simp [buttonLoop]
    rw [hconcat] at hmid
    rw [hrun] at hi ⊢
    exact passCalls_of_held (hinv pre).pc hle hlt hj hmid hi
  case effect =>
    intro pre i post _
    have heffect := (loopPass_effect pdMsToTicks (hinv pre).pc i).2
    rwa [buttonLoop_registered pdMsToTicks h, ← hconcat] at heffect

/-- A press five ticks before the counter wraps, a pass with the button held, and the release. -/
def heldPasses : List LoopPass :=
  [⟨true, true, 4294967291, fun _ => 0, fun _ => []⟩,
    ⟨true, true, 4294967293, fun _ => 0, fun _ => [buildMessage]⟩,
    ⟨false, false, 4294967496, fun _ => 0, fun _ => []⟩]

theorem buttonLoop_contract_heldPasses :
    ButtonContract pdMsToTicks100Hz (loopStart oledPowerUp) heldPasses :=
  buttonLoop_contract pdMsToTicks100Hz (loopStart oledPowerUp) ⟨rfl, rfl⟩ heldPasses (by decide)

end PresenceDevice
