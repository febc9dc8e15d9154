import PresenceDevice.OledCalls
import PresenceDevice.PresenceRun

/-!
# Starting up

`app_main` up to its loop: the display, the presence module, the button, the Wi-Fi station and the
HTTP server, in this order. Each of them makes calls into ESP-IDF that may fail, and `app_main`
checks all of them, so that the device either runs with everything initialised or is aborted at the
first call that failed. The one exception is the flash storage of the Wi-Fi driver, which is erased
and initialised a second time if it is full or too new.

Once the station has been started, `wifi_event_handler` is called for its events. It connects when
the station has started or lost its connection, and announces the device over mDNS with the first
address.

## Main definitions

* `wifiConnect`, `httpServerStart`, `appMainStartup`: the functions of the source
* `startupSteps`: the calls in a row
* `wifiEventHandler`, `wifiEventLoop`: the events

## Main results

* `appMainStartup_calls`: every run of the startup makes these calls up to the first that fails
* `wifiEventLoop_calls`: every run of the event handler
-/

namespace PresenceDevice

/-- `button_init`. -/
def buttonInit : Firmware EspErrT := espErr (.gpioConfig ⟨1 <<< 18, false, true⟩)

/-- `presence_init`, with what it leaves in the module's variables. -/
def presenceInitCalls (p : Presence) : Firmware (EspErr × Presence) := do
  let created ← Script.perform EspCall.xSemaphoreCreateMutex
  return presenceInit created p

/-- The codes that say that the storage has to be erased. -/
def MustErase (ret : EspErrT) : Prop :=
  ret = .espErrNvsNoFreePages ∨ ret = .espErrNvsNewVersionFound

instance (ret : EspErrT) : Decidable (MustErase ret) := instDecidableOr

/-- The variable `ret` of `wifi_connect` when it is checked. -/
def nvsFlashPrepare : Firmware EspErrT := do
  let ret ← espErr .nvsFlashInit
  if MustErase ret then
    espErrorCheck (espErr .nvsFlashErase)
    espErr .nvsFlashInit
  else return ret

/-- `wifi_connect`. -/
def wifiConnect : Firmware EspErrT := do
  espErrorCheck nvsFlashPrepare
  espErrorCheck (espErr .espNetifInit)
  espErrorCheck (espErr .espEventLoopCreateDefault)
  espVoid .espNetifCreateDefaultWifiSta
  espErrorCheck (espErr .espWifiInit)
  espErrorCheck (espErr (.espEventHandlerRegister .wifiAny))
  espErrorCheck (espErr (.espEventHandlerRegister .ipStaGotIp))
  espErrorCheck (espErr .espWifiSetModeSta)
  espErrorCheck (espErr .espWifiSetConfig)
  espErrorCheck (espErr .espWifiStart)
  return .espOk

/-- `http_server_start`. -/
def httpServerStart : Firmware EspErrT := do
  let err ← espErr .httpdStart
  if err ≠ .espOk then return err
  let err ← espErr (.httpdRegisterUriHandler "/message")
  if err ≠ .espOk then return err
  return .espOk

/-- `app_main` up to its first acknowledge. -/
def appMainStartup (oled : Oled) : Firmware Presence := do
  espErrorCheck oledInitCalls
  let (err, p) ← presenceInitCalls (.static oled)
  if err ≠ .espOk then .abort
  espErrorCheck buttonInit
  espErrorCheck wifiConnect
  espErrorCheck httpServerStart
  return p

/-! ### The calls in a row -/

/-- The mutex has to be created. -/
def mutexStep : EspStep := ⟨.xSemaphoreCreateMutex, id⟩

def oledInitSteps : List EspStep :=
  [required (.gpioConfig ⟨1 <<< oledPinDc ||| 1 <<< oledPinRes, true, false⟩),
    required (.spiBusInitialize oledPinMosi (-1) oledPinClk (-1) (-1)),
    required (.spiBusAddDevice (1 * 1000 * 1000) 0 oledPinCs 1),
    unchecked (.gpioSetLevel oledPinRes false), unchecked (.vTaskDelay 10),
    unchecked (.gpioSetLevel oledPinRes true), unchecked (.vTaskDelay 10)] ++
  initSequence.flatMap commandSteps ++ [unchecked (.vTaskDelay 100)] ++ commandSteps 0xAF

/-- The storage is initialised, after it has been erased if it had to be. -/
def nvsSteps (erased : Bool) : List EspStep :=
  if erased then
    [⟨.err .nvsFlashInit, fun (err : EspErrT) => decide (MustErase err)⟩,
      required .nvsFlashErase, required .nvsFlashInit]
  else [required .nvsFlashInit]

def stationSteps : List EspStep :=
  [required .espNetifInit, required .espEventLoopCreateDefault,
    unchecked .espNetifCreateDefaultWifiSta, required .espWifiInit,
    required (.espEventHandlerRegister .wifiAny), required (.espEventHandlerRegister .ipStaGotIp),
    required .espWifiSetModeSta, required .espWifiSetConfig, required .espWifiStart]

def serverSteps : List EspStep :=
  [required .httpdStart, required (.httpdRegisterUriHandler "/message")]

/-- All calls of the startup. -/
def startupSteps (erased : Bool) : List EspStep :=
  oledInitSteps ++ mutexStep :: required (.gpioConfig ⟨1 <<< 18, false, true⟩) ::
    nvsSteps erased ++ stationSteps ++ serverSteps

theorem sendSequence_eq (commands : List UInt8) :
    espErrorCheck (sendSequence commands) = Script.straight (commands.flatMap commandSteps) := by
  induction commands with
  | nil => rfl
  | cons command rest ih =>
    rw [sendSequence, espErrorCheck_bind_return, ih, espErrorCheck_oledSendCommandCalls,
      List.flatMap_cons, Script.straight_append]

theorem oledInitSh1106_eq : espErrorCheck oledInitSh1106 =
    Script.straight (initSequence.flatMap commandSteps ++ [unchecked (.vTaskDelay 100)] ++
      commandSteps 0xAF) := by
  rw [oledInitSh1106, espErrorCheck_bind_return, sendSequence_eq, espErrorCheck_bind,
    espErrorCheck_oledSendCommandCalls, espVoid_eq, Script.straight_append,
    Script.straight_append, bind_assoc]

theorem oledInitCalls_eq : espErrorCheck oledInitCalls = Script.straight oledInitSteps := by
  simp only [oledInitCalls, oledGpioInit, oledSpiInit, oledDeviceInit, oledHardwareReset,
    oledInitSh1106_eq, espErrorCheck_bind, espErrorCheck_espErr, espVoid_eq, espErrorCheck_pure_ok,
    oledInitSteps, Script.straight_append, Script.straight, bind_assoc, bind_pure_unit]

theorem httpServerStart_eq : espErrorCheck httpServerStart = Script.straight serverSteps := by
  simp only [httpServerStart, espErrorCheck_bind_return, espErrorCheck_pure_ok,
    espErrorCheck_espErr, serverSteps, Script.straight, bind_pure_unit]

theorem wifiConnect_eq : espErrorCheck wifiConnect =
    espErrorCheck nvsFlashPrepare >>= fun _ => Script.straight stationSteps := by
  simp only [wifiConnect, espErrorCheck_bind, espErrorCheck_espErr, espVoid_eq,
    espErrorCheck_pure_ok, stationSteps, Script.straight, bind_pure_unit]

variable {log : List (Σ c : EspCall, c.Answer)} {oled : Oled}

/-- The first answer to `nvs_flash_init` says that the storage has to be erased. -/
def AsksErase (log : List (Σ c : EspCall, c.Answer)) : Prop :=
  ∃ err : EspErrT, MustErase err ∧
    log.find? (fun entry => entry.1 = .err .nvsFlashInit) = some ⟨.err .nvsFlashInit, err⟩

theorem asksErase_cons_iff {err : EspErrT} :
    AsksErase (⟨.err .nvsFlashInit, err⟩ :: log) ↔ MustErase err := by
  constructor
  · rintro ⟨first, herase, hfirst⟩
    rw [List.find?_cons_of_pos (by simp)] at hfirst
    obtain ⟨⟩ := hfirst
    exact herase
  · intro herase
    exact ⟨err, herase, List.find?_cons_of_pos (by simp)⟩

theorem asksErase_append_iff {first second : List (Σ c : EspCall, c.Answer)}
    (h : EspCall.err .nvsFlashInit ∉ first.map Sigma.fst) :
    AsksErase (first ++ second) ↔ AsksErase second := by
  have hnone : first.find? (fun entry => entry.1 = .err .nvsFlashInit) = none := by
    rw [List.find?_eq_none]
    intro entry hentry heq
    exact h (of_decide_eq_true heq ▸ List.mem_map_of_mem hentry)
  simp only [AsksErase, List.find?_append, hnone, Option.none_or]

theorem not_asksErase (h : EspCall.err .nvsFlashInit ∉ log.map Sigma.fst) : ¬ AsksErase log := by
  rintro ⟨err, -, hfirst⟩
  exact h (List.mem_map_of_mem (List.mem_of_find?_eq_some hfirst))

/-- The two ways through the initialisation of the storage, and what has been asked for whatever
comes later. -/
theorem runs_nvsFlashPrepare {out : Option Unit}
    (h : Script.Runs (espErrorCheck nvsFlashPrepare) log out) :
    ∃ erased, (∀ later, erased = true ↔ AsksErase (log ++ later)) ∧
      (erased = true ↔ EspCall.err .nvsFlashErase ∈ log.map Sigma.fst) ∧
      Script.Runs (Script.straight (nvsSteps erased)) log out := by
  obtain ⟨(err : EspErrT), rest, rfl, hrest⟩ := Script.runs_call_iff.mp h
  replace hrest : Script.Runs (espErrorCheck (if MustErase err then
      espErrorCheck (espErr .nvsFlashErase) >>= fun _ => espErr .nvsFlashInit else pure err))
      rest out := hrest
  by_cases herase : MustErase err
  · rw [if_pos herase, espErrorCheck_bind, espErrorCheck_espErr, espErrorCheck_espErr,
      ← Script.straight_append] at hrest
    have hgood : decide (MustErase err) = true := decide_eq_true herase
    have hmem : EspCall.err .nvsFlashErase ∈
        (⟨.err .nvsFlashInit, err⟩ :: rest : List (Σ c : EspCall, c.Answer)).map Sigma.fst := by
      obtain ⟨_ | _, -⟩ | ⟨_ | _, -⟩ := Script.runs_straight_iff.mp hrest <;>
        exact List.mem_cons_of_mem _ (List.mem_cons_self ..)
    refine ⟨true, fun later => iff_of_true rfl (asksErase_cons_iff.mpr herase),
      iff_of_true rfl hmem, Script.runs_straight_iff.mpr ?_⟩
    obtain ⟨hpassed, rfl⟩ | ⟨hhalted, rfl⟩ := Script.runs_straight_iff.mp hrest
    · exact Or.inl ⟨.cons hgood hpassed, rfl⟩
    · exact Or.inr ⟨.later hgood hhalted, rfl⟩
  · rw [if_neg herase] at hrest
    have hcheck : espErrorCheck (pure err) = if err = .espOk then pure () else .abort := rfl
    rw [hcheck] at hrest
    refine ⟨false, fun later => iff_of_false Bool.false_ne_true
      fun hask => herase (asksErase_cons_iff.mp hask), ?_⟩
    split_ifs at hrest with hok
    · obtain ⟨rfl, rfl⟩ := Script.runs_pure_iff.mp hrest
      refine ⟨by simp, Script.runs_straight_iff.mpr (Or.inl ⟨.cons (decide_eq_true hok) .nil, rfl⟩)⟩
    · obtain ⟨rfl, rfl⟩ := Script.runs_abort_iff.mp hrest
      have hbad : ¬ (required .nvsFlashInit).good err := fun h => hok (eq_espOk_of_good h)
      exact ⟨by simp, Script.runs_straight_iff.mpr (Or.inr ⟨.here hbad, rfl⟩)⟩

/-- The presence module is initialised when its mutex has been created. -/
theorem presenceInitCalls_bind (oled : Oled) (f : EspErr × Presence → Firmware Presence)
    (hf : ∀ p, f (.espErrNoMem, p) = .abort) :
    presenceInitCalls (.static oled) >>= f =
      Script.straight [mutexStep] >>= fun _ => f (.espOk, presenceStart oled) := by
  refine congrArg (Script.call EspCall.xSemaphoreCreateMutex) (funext fun (created : Bool) => ?_)
  cases created with
  | false => exact hf _
  | true => rfl

/-- The calls before those of the storage, and after them. -/
def beforeNvs : List EspStep :=
  oledInitSteps ++ [mutexStep, required (.gpioConfig ⟨1 <<< 18, false, true⟩)]

def afterNvs : List EspStep := stationSteps ++ serverSteps

theorem startupSteps_eq (erased : Bool) :
    startupSteps erased = beforeNvs ++ nvsSteps erased ++ afterNvs := by
  simp only [startupSteps, beforeNvs, afterNvs, List.append_assoc, List.cons_append,
    List.nil_append]

theorem appMainStartup_eq (oled : Oled) : appMainStartup oled =
    Script.straight beforeNvs >>= fun _ => espErrorCheck nvsFlashPrepare >>= fun _ =>
      Script.straight afterNvs >>= fun _ => pure (presenceStart oled) := by
  have hsource : appMainStartup oled = espErrorCheck oledInitCalls >>= fun _ =>
      Script.straight [mutexStep] >>= fun _ => espErrorCheck buttonInit >>= fun _ =>
        espErrorCheck wifiConnect >>= fun _ => espErrorCheck httpServerStart >>= fun _ =>
          pure (presenceStart oled) :=
    congrArg (espErrorCheck oledInitCalls >>= ·)
      (funext fun _ => presenceInitCalls_bind oled _ fun _ => rfl)
  rw [hsource, oledInitCalls_eq]
  simp only [buttonInit, espErrorCheck_espErr, wifiConnect_eq, httpServerStart_eq, beforeNvs,
    afterNvs, Script.straight_append, Script.straight, bind_assoc, bind_pure_unit]

theorem mem_calls_append {first second : List (Σ c : EspCall, c.Answer)} {c : EspCall} :
    c ∈ (first ++ second).map Sigma.fst ↔ c ∈ first.map Sigma.fst ∨ c ∈ second.map Sigma.fst := by
  rw [List.map_append, List.mem_append]

/-- The runs of the startup are those of the calls in a row. -/
theorem runs_appMainStartup {out : Option Presence}
    (h : Script.Runs (appMainStartup oled) log out) :
    ∃ erased, (erased = true ↔ AsksErase log) ∧
      (erased = true ↔ EspCall.err .nvsFlashErase ∈ log.map Sigma.fst) ∧
      ((out = some (presenceStart oled) ∧ Script.Passed (startupSteps erased) log) ∨
        (out = none ∧ Script.Halted (startupSteps erased) log)) := by
  have hinit : EspCall.err .nvsFlashInit ∉ beforeNvs.map Script.Step.call := by decide
  have hbefore : EspCall.err .nvsFlashErase ∉ beforeNvs.map Script.Step.call := by decide
  have hafter : EspCall.err .nvsFlashErase ∉ afterNvs.map Script.Step.call := by decide
  simp only [startupSteps_eq]
  rw [appMainStartup_eq, Script.runs_bind_iff] at h
  obtain ⟨first, a, rest, rfl, hfirst, hrest⟩ | ⟨hnone, rfl⟩ := h
  · obtain ⟨hpassed, -⟩ | ⟨-, ⟨⟩⟩ := Script.runs_straight_iff.mp hfirst
    rw [← hpassed.calls] at hbefore hinit
    rw [Script.runs_bind_iff] at hrest
    simp only [asksErase_append_iff hinit, mem_calls_append, or_iff_right hbefore]
    obtain ⟨second, b, third, rfl, hsecond, hthird⟩ | ⟨hnone, rfl⟩ := hrest
    · obtain ⟨erased, hasked, herased, hsecond⟩ := runs_nvsFlashPrepare hsecond
      obtain ⟨hnvs, -⟩ | ⟨-, ⟨⟩⟩ := Script.runs_straight_iff.mp hsecond
      rw [Script.runs_bind_iff] at hthird
      obtain ⟨third, u, fourth, rfl, hthird, hfourth⟩ | ⟨hnone, rfl⟩ := hthird
      · obtain ⟨rfl, rfl⟩ := Script.runs_pure_iff.mp hfourth
        obtain ⟨hlast, -⟩ | ⟨-, ⟨⟩⟩ := Script.runs_straight_iff.mp hthird
        rw [← hlast.calls] at hafter
        rw [List.append_nil]
        refine ⟨erased, hasked third, ?_, Or.inl ⟨rfl, ?_⟩⟩
        · rw [mem_calls_append, or_iff_left hafter]
          exact herased
        · rw [List.append_assoc]
          exact hpassed.append (hnvs.append hlast)
      · obtain ⟨-, ⟨⟩⟩ | ⟨hlast, -⟩ := Script.runs_straight_iff.mp hnone
        have hafter' : EspCall.err .nvsFlashErase ∉ third.map Sigma.fst :=
          fun hmem => hafter (hlast.calls.subset hmem)
        refine ⟨erased, hasked third, ?_, Or.inr ⟨rfl, ?_⟩⟩
        · rw [mem_calls_append, or_iff_left hafter']
          exact herased
        · rw [List.append_assoc]
          exact hpassed.append_halted (hnvs.append_halted hlast)
    · obtain ⟨erased, hasked, herased, hsecond⟩ := runs_nvsFlashPrepare hnone
      obtain ⟨-, ⟨⟩⟩ | ⟨hnvs, -⟩ := Script.runs_straight_iff.mp hsecond
      refine ⟨erased, ?_, herased, Or.inr ⟨rfl, (hpassed.append_halted hnvs).append_right _⟩⟩
      have hall := hasked []
      rwa [List.append_nil] at hall
  · obtain ⟨-, ⟨⟩⟩ | ⟨hhalted, -⟩ := Script.runs_straight_iff.mp hnone
    refine ⟨false, ?_, ?_, Or.inr ⟨rfl, (hhalted.append_right _).append_right _⟩⟩
    · exact iff_of_false Bool.false_ne_true
        (not_asksErase fun hmem => hinit (hhalted.calls.subset hmem))
    · exact iff_of_false Bool.false_ne_true fun hmem => hbefore (hhalted.calls.subset hmem)

/-- The calls that the startup has made, and how it ended. -/
structure StartupRun (oled : Oled) (erased : Bool) (log : List (Σ c : EspCall, c.Answer))
    (out : Option Presence) : Prop where
  /-- The storage has to be erased when the first attempt to initialise it asks for that. -/
  asked_iff : erased = true ↔ AsksErase log
  /-- It is not erased otherwise. -/
  erased_iff : erased = true ↔ EspCall.err .nvsFlashErase ∈ log.map Sigma.fst
  /-- Whatever is called, all calls in front of it have succeeded. -/
  before : ∀ earlier x later, log = earlier ++ x :: later → ∃ done step rest,
    startupSteps erased = done ++ step :: rest ∧ step.call = x.1 ∧ Script.Passed done earlier
  /-- `app_main` goes on when everything has succeeded, with the presence module initialised. -/
  finished : ∀ p, out = some p → p = presenceStart oled ∧ Script.Passed (startupSteps erased) log
  /-- Otherwise the last call has failed, the first that did. -/
  aborted : out = none → ∃ done step rest earlier x, startupSteps erased = done ++ step :: rest ∧
    Script.Passed done earlier ∧ log = earlier ++ [⟨step.call, x⟩] ∧ ¬ step.good x

/-- **Every run of the startup makes these calls, in this order, and stops at the first that
fails.** -/
theorem appMainStartup_calls (answer : List (Σ c : EspCall, c.Answer) → (c : EspCall) → c.Answer)
    (oled : Oled) :
    let run := Script.play answer [] (appMainStartup oled)
    ∃ erased, StartupRun oled erased run.1 run.2 := by
  intro run
  have h : Script.Runs (appMainStartup oled) run.1 run.2 := Script.runs_play ..
  obtain ⟨erased, hasked, herased, ⟨hout, hpassed⟩ | ⟨hout, hhalted⟩⟩ := runs_appMainStartup h
  · refine ⟨erased, hasked, herased, fun earlier x later hlog => ?_, fun p hp => ?_,
      fun hnone => ?_⟩
    · rw [hlog] at hpassed
      exact hpassed.before
    · exact ⟨Option.some.inj (hp.symm.trans hout), hpassed⟩
    · cases hnone.symm.trans hout
  · refine ⟨erased, hasked, herased, fun earlier x later hlog => ?_, fun p hp => ?_, fun _ => ?_⟩
    · rw [hlog] at hhalted
      exact hhalted.before
    · cases hp.symm.trans hout
    · exact hhalted.exists_bad

/-! ### Events of the station -/

/-- The events that `wifi_event_handler` is registered for. -/
inductive WifiEvent
  | staStart
  | staDisconnected
  | staGotIp
  | otherWifi
  deriving DecidableEq

/-- `wifi_event_handler`, with `mdns_started` before and after. -/
def wifiEventHandler (mdnsStarted : Bool) : WifiEvent → Firmware Bool
  | .staStart => do
    espVoid .espWifiConnect
    return mdnsStarted
  | .staDisconnected => do
    espVoid .espWifiConnect
    return mdnsStarted
  | .staGotIp => do
    if mdnsStarted then return true
    espErrorCheck (espErr .mdnsInit)
    espErrorCheck (espErr (.mdnsHostnameSet "agent-presence"))
    espErrorCheck (espErr (.mdnsInstanceNameSet "Agent Presence Device"))
    espErrorCheck (espErr (.mdnsServiceAdd "Agent Presence Device" "_http" "_tcp" 80))
    return true
  | .otherWifi => return mdnsStarted

/-- The event loop calls the handler for one event after the other. -/
def wifiEventLoop : List WifiEvent → Firmware Bool :=
  List.foldlM wifiEventHandler false

def mdnsSteps : List EspStep :=
  [required .mdnsInit, required (.mdnsHostnameSet "agent-presence"),
    required (.mdnsInstanceNameSet "Agent Presence Device"),
    required (.mdnsServiceAdd "Agent Presence Device" "_http" "_tcp" 80)]

/-- The calls of the handler for an event. -/
def eventSteps (mdnsStarted : Bool) : WifiEvent → List EspStep
  | .staStart | .staDisconnected => [unchecked .espWifiConnect]
  | .staGotIp => if mdnsStarted then [] else mdnsSteps
  | .otherWifi => []

def loopSteps (mdnsStarted : Bool) : List WifiEvent → List EspStep
  | [] => []
  | e :: events => eventSteps mdnsStarted e ++ loopSteps (mdnsStarted || e == .staGotIp) events

theorem wifiEventHandler_eq (mdnsStarted : Bool) (e : WifiEvent) :
    wifiEventHandler mdnsStarted e = Script.straight (eventSteps mdnsStarted e) >>= fun _ =>
      pure (mdnsStarted || e == .staGotIp) := by
  cases e with
  | staStart | staDisconnected | otherWifi => cases mdnsStarted <;> rfl
  | staGotIp =>
    cases mdnsStarted with
    | true => rfl
    | false =>
      simp only [wifiEventHandler, espErrorCheck_espErr, eventSteps, mdnsSteps, Script.straight,
        bind_assoc, pure_bind, Bool.false_eq_true, if_false]
      rfl

theorem foldlM_wifiEventHandler (mdnsStarted : Bool) (events : List WifiEvent) :
    events.foldlM wifiEventHandler mdnsStarted = Script.straight (loopSteps mdnsStarted events) >>=
      fun _ => pure (mdnsStarted || events.contains .staGotIp) := by
  induction events generalizing mdnsStarted with
  | nil =>
    rw [List.foldlM_nil, loopSteps, Script.straight, pure_bind, List.contains_nil, Bool.or_false]
  | cons e events ih =>
    simp only [List.foldlM_cons, wifiEventHandler_eq, bind_assoc, pure_bind, ih, loopSteps,
      Script.straight_append, List.contains_cons, Bool.or_assoc]
    rw [show (WifiEvent.staGotIp == e) = (e == .staGotIp) from Bool.beq_comm]

/-- The calls that set up mDNS. -/
def mdnsCalls : List EspCall := mdnsSteps.map Script.Step.call

/-- mDNS is set up once, at the first address. -/
theorem filter_loopSteps (mdnsStarted : Bool) (events : List WifiEvent) :
    ((loopSteps mdnsStarted events).map Script.Step.call).filter (· ∈ mdnsCalls) =
      if mdnsStarted = false ∧ .staGotIp ∈ events then mdnsCalls else [] := by
  have hevent : ∀ mdnsStarted e, ((eventSteps mdnsStarted e).map Script.Step.call).filter
      (· ∈ mdnsCalls) = if mdnsStarted = false ∧ .staGotIp = e then mdnsCalls else [] := by
    intro mdnsStarted e
    cases mdnsStarted <;> cases e <;> decide
  induction events generalizing mdnsStarted with
  | nil => simp [loopSteps]
  | cons e events ih =>
    rw [loopSteps, List.map_append, List.filter_append, ih, hevent]
    cases mdnsStarted with
    | true => simp
    | false =>
      by_cases he : .staGotIp = e
      · simp [← he]
      · have hne : (e == WifiEvent.staGotIp) = false := beq_eq_false_iff_ne.mpr (Ne.symm he)
        simp [he, hne]

/-- Every start and every lost connection is answered with an attempt to connect. -/
theorem count_loopSteps (mdnsStarted : Bool) (events : List WifiEvent) :
    ((loopSteps mdnsStarted events).map Script.Step.call).count (.void .espWifiConnect) =
      events.count .staStart + events.count .staDisconnected := by
  have hevent : ∀ mdnsStarted e, ((eventSteps mdnsStarted e).map Script.Step.call).count
      (.void .espWifiConnect) =
        (if e == .staStart then 1 else 0) + if e == .staDisconnected then 1 else 0 := by
    intro mdnsStarted e
    cases mdnsStarted <;> cases e <;> decide
  induction events generalizing mdnsStarted with
  | nil => rfl
  | cons e events ih =>
    rw [loopSteps, List.map_append, List.count_append, ih, hevent, List.count_cons, List.count_cons]
    omega

/-- Only the setup of mDNS can fail. -/
theorem exists_mdnsCall {step : EspStep} {mdnsStarted : Bool} {events : List WifiEvent}
    (h : step ∈ loopSteps mdnsStarted events) {x : step.call.Answer} (hbad : ¬ step.good x) :
    .staGotIp ∈ events ∧ ∃ c, .err c ∈ mdnsCalls ∧ step = required c := by
  induction events generalizing mdnsStarted with
  | nil => cases h
  | cons e events ih =>
    rw [loopSteps, List.mem_append] at h
    obtain h | h := h
    · cases e with
      | staStart | staDisconnected =>
        obtain rfl := List.mem_singleton.mp h
        exact absurd rfl hbad
      | otherWifi => cases h
      | staGotIp =>
        refine ⟨List.mem_cons_self .., ?_⟩
        rw [eventSteps] at h
        split_ifs at h
        · cases h
        · have hrequired : ∀ step ∈ mdnsSteps, ∃ c, step = required c := by simp [mdnsSteps]
          obtain ⟨c, rfl⟩ := hrequired step h
          exact ⟨c, List.mem_map_of_mem h, rfl⟩
    · obtain ⟨hmem, hcall⟩ := ih h
      exact ⟨List.mem_cons_of_mem _ hmem, hcall⟩

theorem succeeded_event {mdnsStarted : Bool} {e : WifiEvent} :
    ∀ step ∈ eventSteps mdnsStarted e, ∀ x, step.good x → Succeeded ⟨step.call, x⟩ := by
  have hmdns : ∀ step ∈ mdnsSteps, ∀ x, step.good x → Succeeded ⟨step.call, x⟩ := by
    simp only [mdnsSteps, List.forall_mem_cons]
    exact ⟨fun _ => eq_espOk_of_good, fun _ => eq_espOk_of_good, fun _ => eq_espOk_of_good,
      fun _ => eq_espOk_of_good, List.forall_mem_nil _⟩
  cases e with
  | staStart | staDisconnected => exact List.forall_mem_singleton.mpr fun _ _ => trivial
  | staGotIp =>
    rw [eventSteps]
    split_ifs
    · exact List.forall_mem_nil _
    · exact hmdns
  | otherWifi => exact List.forall_mem_nil _

theorem succeeded_loop {mdnsStarted : Bool} {events : List WifiEvent} :
    ∀ step ∈ loopSteps mdnsStarted events, ∀ x, step.good x → Succeeded ⟨step.call, x⟩ := by
  induction events generalizing mdnsStarted with
  | nil => exact List.forall_mem_nil _
  | cons e events ih => exact List.forall_mem_append.mpr ⟨succeeded_event, ih⟩

/-- What the event handler has done for some events. -/
structure StationRun (events : List WifiEvent) (log : List (Σ c : EspCall, c.Answer))
    (out : Option Bool) : Prop where
  /-- mDNS is never set up a second time. -/
  announced_once : (log.map Sigma.fst).filter (· ∈ mdnsCalls) <+: mdnsCalls
  /-- There is no attempt to connect without an event. -/
  connects : (log.map Sigma.fst).count (.void .espWifiConnect) ≤
    events.count .staStart + events.count .staDisconnected
  /-- If the handler has returned from all of them, nothing is missing. -/
  returned : ∀ mdnsStarted, out = some mdnsStarted →
    (mdnsStarted = true ↔ .staGotIp ∈ events) ∧
    (log.map Sigma.fst).filter (· ∈ mdnsCalls) = (if mdnsStarted then mdnsCalls else []) ∧
    (log.map Sigma.fst).count (.void .espWifiConnect) =
      events.count .staStart + events.count .staDisconnected
  /-- Otherwise a call of the setup of mDNS has failed, the last one and the only one that did. -/
  aborted : out = none → .staGotIp ∈ events ∧ ∃ earlier c, ∃ err : EspErrT, .err c ∈ mdnsCalls ∧
    log = earlier ++ [⟨.err c, err⟩] ∧ err ≠ .espOk ∧ ∀ entry ∈ earlier, Succeeded entry

theorem runs_wifiEventLoop {events : List WifiEvent} {out : Option Bool}
    (h : Script.Runs (wifiEventLoop events) log out) :
    (out = some (events.contains .staGotIp) ∧ Script.Passed (loopSteps false events) log) ∨
      (out = none ∧ Script.Halted (loopSteps false events) log) := by
  rw [wifiEventLoop, foldlM_wifiEventHandler, Bool.false_or, Script.runs_bind_iff] at h
  obtain ⟨calls, u, rest, rfl, hcalls, hrest⟩ | ⟨hnone, rfl⟩ := h
  · obtain ⟨rfl, rfl⟩ := Script.runs_pure_iff.mp hrest
    obtain ⟨hpassed, -⟩ | ⟨-, ⟨⟩⟩ := Script.runs_straight_iff.mp hcalls
    rw [List.append_nil]
    exact Or.inl ⟨rfl, hpassed⟩
  · obtain ⟨-, ⟨⟩⟩ | ⟨hhalted, -⟩ := Script.runs_straight_iff.mp hnone
    exact Or.inr ⟨rfl, hhalted⟩

/-- **The station over any events**: it tries to connect once for every start and every lost
connection, and announces the device once, however often it gets an address. -/
theorem wifiEventLoop_calls (answer : List (Σ c : EspCall, c.Answer) → (c : EspCall) → c.Answer)
    (events : List WifiEvent) :
    let run := Script.play answer [] (wifiEventLoop events)
    StationRun events run.1 run.2 := by
  intro run
  have h : Script.Runs (wifiEventLoop events) run.1 run.2 := Script.runs_play ..
  replace h := runs_wifiEventLoop h
  have hcalls : run.1.map Sigma.fst <+: (loopSteps false events).map Script.Step.call := by
    obtain ⟨-, hpassed⟩ | ⟨-, hhalted⟩ := h
    · rw [hpassed.calls]
    · exact hhalted.calls
  have hmdns := filter_loopSteps false events
  have hconnects := count_loopSteps false events
  constructor
  case announced_once =>
    have hprefix := hcalls.filter (· ∈ mdnsCalls)
    rw [hmdns] at hprefix
    split_ifs at hprefix
    · exact hprefix
    · exact hprefix.trans (List.nil_prefix ..)
  case connects =>
    rw [← hconnects]
    exact hcalls.sublist.count_le _
  case returned =>
    intro mdnsStarted hout
    obtain ⟨hsome, hpassed⟩ | ⟨hnone, -⟩ := h
    · obtain rfl := Option.some.inj (hout.symm.trans hsome)
      rw [hpassed.calls, hmdns, hconnects]
      refine ⟨List.contains_iff_mem, ?_, rfl⟩
      simp
    · cases hout.symm.trans hnone
  case aborted =>
    intro hout
    obtain ⟨hsome, -⟩ | ⟨-, hhalted⟩ := h
    · cases hout.symm.trans hsome
    · obtain ⟨done, step, rest, earlier, x, hsteps, hpassed, hlog, hbad⟩ := hhalted.exists_bad
      have hmem : ∀ s ∈ done ++ [step], s ∈ loopSteps false events := by
        intro s hs
        rw [hsteps, List.append_cons]
        exact List.mem_append_left rest hs
      obtain ⟨hip, c, hcall, rfl⟩ :=
        exists_mdnsCall (hmem step (List.mem_append_right done (List.mem_singleton_self step))) hbad
      have herr : ∀ err : EspErrT, ¬ (required c).good err → err ≠ .espOk :=
        fun err hbad h => hbad (decide_eq_true h)
      refine ⟨hip, earlier, c, x, hcall, hlog, herr x hbad, ?_⟩
      exact hpassed.forall_mem fun s hs => succeeded_loop s (hmem s (List.mem_append_left _ hs))

end PresenceDevice
