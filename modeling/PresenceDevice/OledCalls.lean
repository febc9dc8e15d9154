import PresenceDevice.Library.Script
import PresenceDevice.OledFlush

/-!
# The OLED driver and its calls

`oled.c` once more, down to its calls into ESP-IDF, any of which may fail. `ESP_ERROR_CHECK` aborts
the firmware, so a function of the driver that returns has made all its calls with success. The
other modules describe the driver by what the panel receives; here that description is compared
with the calls.

## Main definitions

* `EspCall`, `Firmware`, `espErrorCheck`: calls into ESP-IDF and code that makes them
* `oledInitCalls`, `oledFlushCalls`: the functions of `oled.c`
* `Sh1106.replay`: what a panel has received after some calls
* `FlushRun`: how `oled_flush` can end

## Main results

* `oledFlushCalls_pages`: what the panel has received when `oled_flush` ends
-/

namespace PresenceDevice

/-- The values of `esp_err_t` that the firmware tells apart. -/
inductive EspErrT
  | espOk
  | espErrNvsNoFreePages
  | espErrNvsNewVersionFound
  | other (code : ℤ)
  deriving DecidableEq

/-- The pins and settings of `gpio_config_t`. -/
structure GpioConfig where
  pinBitMask : ℕ
  output : Bool
  pullUp : Bool
  deriving DecidableEq

/-- The event bases and events for which a handler can be registered. -/
inductive EspEvent
  | wifiAny
  | ipStaGotIp
  deriving DecidableEq

/-- The calls into ESP-IDF that return an `esp_err_t`, with the arguments the firmware chooses. -/
inductive EspErrCall
  | gpioConfig (config : GpioConfig)
  | spiBusInitialize (mosi miso sclk quadwp quadhd : ℤ)
  | spiBusAddDevice (clockSpeedHz mode : ℕ) (spicsIoNum : ℤ) (queueSize : ℕ)
  | spiDeviceTransmit (bytes : List UInt8)
  | nvsFlashInit
  | nvsFlashErase
  | espNetifInit
  | espEventLoopCreateDefault
  | espWifiInit
  | espEventHandlerRegister (event : EspEvent)
  | espWifiSetModeSta
  | espWifiSetConfig
  | espWifiStart
  | httpdStart
  | httpdRegisterUriHandler (uri : String)
  | mdnsInit
  | mdnsHostnameSet (hostname : String)
  | mdnsInstanceNameSet (instanceName : String)
  | mdnsServiceAdd (instanceName serviceType proto : String) (port : ℕ)
  deriving DecidableEq

/-- The calls whose results the firmware does not look at. -/
inductive EspVoidCall
  | gpioSetLevel (pin : ℕ) (level : Bool)
  | vTaskDelay (ms : ℕ)
  | espNetifCreateDefaultWifiSta
  | espWifiConnect
  deriving DecidableEq

inductive EspCall
  | err (c : EspErrCall)
  | void (c : EspVoidCall)
  | xSemaphoreCreateMutex
  deriving DecidableEq

/-- What the firmware sees of a result; of a mutex, whether it was created. -/
def EspCall.Answer : EspCall → Type
  | .err _ => EspErrT
  | .void _ => Unit
  | .xSemaphoreCreateMutex => Bool

/-- Code of the firmware. -/
abbrev Firmware := Script EspCall EspCall.Answer

def espErr (c : EspErrCall) : Firmware EspErrT := .perform (EspCall.err c)

def espVoid (c : EspVoidCall) : Firmware Unit := .perform (EspCall.void c)

/-- `ESP_ERROR_CHECK`. -/
def espErrorCheck (code : Firmware EspErrT) : Firmware Unit := do
  let err ← code
  if err = .espOk then return () else .abort

/-! ### The functions of the driver -/

def oledPinMosi : ℕ := 11

def oledPinClk : ℕ := 12

def oledPinCs : ℕ := 8

def oledPinDc : ℕ := 9

def oledPinRes : ℕ := 10

/-- `oled_gpio_init`. -/
def oledGpioInit : Firmware EspErrT :=
  espErr (.gpioConfig ⟨1 <<< oledPinDc ||| 1 <<< oledPinRes, true, false⟩)

/-- `oled_spi_init`. -/
def oledSpiInit : Firmware EspErrT :=
  espErr (.spiBusInitialize oledPinMosi (-1) oledPinClk (-1) (-1))

/-- `oled_device_init`. -/
def oledDeviceInit : Firmware EspErrT :=
  espErr (.spiBusAddDevice (1 * 1000 * 1000) 0 oledPinCs 1)

/-- `oled_hardware_reset`. -/
def oledHardwareReset : Firmware Unit := do
  espVoid (.gpioSetLevel oledPinRes false)
  espVoid (.vTaskDelay 10)
  espVoid (.gpioSetLevel oledPinRes true)
  espVoid (.vTaskDelay 10)

/-- `oled_send_command`. -/
def oledSendCommandCalls (command : UInt8) : Firmware EspErrT := do
  espVoid (.gpioSetLevel oledPinDc false)
  espErr (.spiDeviceTransmit [command])

/-- `oled_send_data`. -/
def oledSendDataCalls (data : List UInt8) : Firmware EspErrT := do
  espVoid (.gpioSetLevel oledPinDc true)
  espErr (.spiDeviceTransmit data)

/-- `init_sequence`. -/
def initSequence : List UInt8 :=
  [0xAE, 0xD5, 0x80, 0xA8, 0x3F, 0xD3, 0x00, 0x40, 0xAD, 0x8B, 0xA1, 0xC8, 0xDA, 0x12, 0x81, 0xFF,
    0xD9, 0x1F, 0xDB, 0x40, 0x33, 0xA6, 0xA4]

/-- The loop of `oled_init_sh1106`. -/
def sendSequence : List UInt8 → Firmware EspErrT
  | [] => return .espOk
  | command :: rest => do
    let err ← oledSendCommandCalls command
    if err ≠ .espOk then return err
    sendSequence rest

/-- `oled_init_sh1106`. -/
def oledInitSh1106 : Firmware EspErrT := do
  let err ← sendSequence initSequence
  if err ≠ .espOk then return err
  espVoid (.vTaskDelay 100)
  oledSendCommandCalls 0xAF

/-- `oled_init`. -/
def oledInitCalls : Firmware EspErrT := do
  espErrorCheck oledGpioInit
  espErrorCheck oledSpiInit
  espErrorCheck oledDeviceInit
  oledHardwareReset
  espErrorCheck oledInitSh1106
  return .espOk

/-- `oled_write_page`. -/
def oledWritePageCalls (page : UInt8) (data : List UInt8) : Firmware EspErrT := do
  espErrorCheck (oledSendCommandCalls (0xB0 ||| page))
  espErrorCheck (oledSendCommandCalls 0x02)
  espErrorCheck (oledSendCommandCalls 0x10)
  oledSendDataCalls data

/-- `oled_flush`. -/
def oledFlushCalls (oledBuffer : Frame) : Firmware EspErrT := do
  forM (List.finRange oledPages) fun (page : Fin oledPages) =>
    espErrorCheck (oledWritePageCalls (UInt8.ofNat page) (pageBytes oledBuffer page))
  return .espOk

/-! ### The calls in a row -/

abbrev EspStep := Script.Step EspCall EspCall.Answer

/-- A call that has to return `ESP_OK`. -/
def required (c : EspErrCall) : EspStep := ⟨.err c, fun (err : EspErrT) => decide (err = .espOk)⟩

/-- A call that cannot fail. -/
def unchecked (c : EspVoidCall) : EspStep := ⟨.void c, fun _ => true⟩

variable {first second : Firmware EspErrT} {code : Firmware Unit}

theorem espErrorCheck_espErr (c : EspErrCall) :
    espErrorCheck (espErr c) = Script.straight [required c] := by
  refine congrArg (Script.call (EspCall.err c)) (funext fun (err : EspErrT) => ?_)
  by_cases h : err = .espOk
  · subst h
    rfl
  · have hgood : decide (err = .espOk) = false := decide_eq_false h
    show (if err = .espOk then _ else _) = Script.bind (if decide (err = .espOk) then _ else _) _
    rw [if_neg h, hgood]
    rfl

theorem espVoid_eq (c : EspVoidCall) : espVoid c = Script.straight [unchecked c] := rfl

theorem espErrorCheck_pure_ok : espErrorCheck (pure .espOk) = pure () := rfl

theorem espErrorCheck_bind (second : Firmware EspErrT) :
    espErrorCheck (code >>= fun _ => second) = code >>= fun _ => espErrorCheck second :=
  bind_assoc ..

/-- A code that a function returns and its caller checks might as well be checked at once. -/
theorem espErrorCheck_bind_return (first second : Firmware EspErrT) :
    espErrorCheck (first >>= fun err => if err ≠ .espOk then pure err else second) =
      espErrorCheck first >>= fun _ => espErrorCheck second := by
  simp only [espErrorCheck, bind_assoc]
  refine congrArg (first >>= ·) (funext fun err => ?_)
  by_cases h : err = .espOk
  · rw [if_neg (not_not.mpr h), if_pos h, pure_bind]
  · rw [if_pos h, if_neg h, pure_bind, if_neg h]
    rfl

/-- A transfer behind the level of the D/C line. -/
def transferSteps (level : Bool) (bytes : List UInt8) : List EspStep :=
  [unchecked (.gpioSetLevel oledPinDc level), required (.spiDeviceTransmit bytes)]

/-- What a command and a page of data take on the wire. -/
def commandSteps (command : UInt8) : List EspStep := transferSteps false [command]

def dataSteps (data : List UInt8) : List EspStep := transferSteps true data

theorem espErrorCheck_oledSendCommandCalls (command : UInt8) :
    espErrorCheck (oledSendCommandCalls command) = Script.straight (commandSteps command) := by
  rw [oledSendCommandCalls, espVoid_eq, espErrorCheck_bind, espErrorCheck_espErr,
    ← Script.straight_append]
  rfl

theorem espErrorCheck_oledSendDataCalls (data : List UInt8) :
    espErrorCheck (oledSendDataCalls data) = Script.straight (dataSteps data) := by
  rw [oledSendDataCalls, espVoid_eq, espErrorCheck_bind, espErrorCheck_espErr,
    ← Script.straight_append]
  rfl

def pageSteps (page : UInt8) (data : List UInt8) : List EspStep :=
  commandSteps (0xB0 ||| page) ++ commandSteps 0x02 ++ commandSteps 0x10 ++ dataSteps data

theorem espErrorCheck_oledWritePageCalls (page : UInt8) (data : List UInt8) :
    espErrorCheck (oledWritePageCalls page data) = Script.straight (pageSteps page data) := by
  simp only [oledWritePageCalls, espErrorCheck_bind, espErrorCheck_oledSendCommandCalls,
    espErrorCheck_oledSendDataCalls, pageSteps, Script.straight_append, bind_assoc]

/-- The calls that send some pages. -/
def pagesSteps (oledBuffer : Frame) (pages : List (Fin oledPages)) : List EspStep :=
  pages.flatMap fun (page : Fin oledPages) =>
    pageSteps (UInt8.ofNat page) (pageBytes oledBuffer page)

/-- The calls of `oled_flush`. -/
def flushSteps (oledBuffer : Frame) : List EspStep :=
  pagesSteps oledBuffer (List.finRange oledPages)

theorem forM_straight {ι : Type} (l : List ι) (steps : ι → List EspStep) :
    forM l (fun i => Script.straight (steps i)) = Script.straight (l.flatMap steps) := by
  induction l with
  | nil => rfl
  | cons i l ih =>
    rw [List.flatMap_cons, Script.straight_append, ← ih]
    rfl

theorem oledFlushCalls_eq (oledBuffer : Frame) : oledFlushCalls oledBuffer =
    Script.straight (flushSteps oledBuffer) >>= fun _ => pure .espOk := by
  simp only [oledFlushCalls, espErrorCheck_oledWritePageCalls, forM_straight, flushSteps,
    pagesSteps]

/-! ### What the panel receives -/

/-- The call has not failed. -/
def Succeeded : (Σ c : EspCall, c.Answer) → Prop
  | ⟨.err _, (err : EspErrT)⟩ => err = .espOk
  | ⟨.void _, _⟩ => True
  | ⟨.xSemaphoreCreateMutex, (created : Bool)⟩ => created = true

/-- A call that returned. The driver does not say what a failed transfer has brought to the panel:
this is `failed`. -/
def Sh1106.observe (failed : List UInt8 → Sh1106 → Sh1106) (panel : Sh1106) :
    (Σ c : EspCall, c.Answer) → Sh1106
  | ⟨.void (.gpioSetLevel pin level), _⟩ =>
    if pin = oledPinDc then { panel with dataLine := level } else panel
  | ⟨.err (.spiDeviceTransmit bytes), (err : EspErrT)⟩ =>
    if err = .espOk then panel.transmit bytes else failed bytes panel
  | _ => panel

/-- The panel after some calls. -/
def Sh1106.replay (failed : List UInt8 → Sh1106 → Sh1106) (panel : Sh1106)
    (log : List (Σ c : EspCall, c.Answer)) : Sh1106 :=
  log.foldl (observe failed) panel

/-- The call transfers a page, the only transfers of more than one byte. -/
def EspCall.isPage : EspCall → Bool
  | .err (.spiDeviceTransmit bytes) => bytes.length == oledWidth
  | _ => false

/-- The number of pages that have been handed to the SPI driver. -/
def pagesSent (log : List (Σ c : EspCall, c.Answer)) : ℕ :=
  (log.map Sigma.fst).countP EspCall.isPage

variable {failed : List UInt8 → Sh1106 → Sh1106} {panel : Sh1106}
  {log first second : List (Σ c : EspCall, c.Answer)}

theorem Sh1106.replay_append : panel.replay failed (first ++ second) =
    (panel.replay failed first).replay failed second :=
  List.foldl_append

theorem pagesSent_append : pagesSent (first ++ second) = pagesSent first + pagesSent second := by
  rw [pagesSent, List.map_append, List.countP_append]
  rfl

theorem eq_espOk_of_good {c : EspErrCall} {err : EspErrT} (h : (required c).good err) :
    err = .espOk :=
  of_decide_eq_true h

theorem succeeded_transfer {level : Bool} {bytes : List UInt8} :
    ∀ step ∈ transferSteps level bytes, ∀ x, step.good x → Succeeded ⟨step.call, x⟩ := by
  simp only [transferSteps, List.forall_mem_cons]
  exact ⟨fun _ _ => trivial, fun _ => eq_espOk_of_good, List.forall_mem_nil _⟩

theorem replay_transfer {level : Bool} {bytes : List UInt8}
    (h : Script.Passed (transferSteps level bytes) log) :
    panel.replay failed log = { panel with dataLine := level }.transmit bytes := by
  obtain _ | ⟨-, h⟩ := h
  obtain _ | ⟨hgood, ⟨⟩⟩ := h
  exact if_pos (eq_espOk_of_good hgood)

theorem replay_commandSteps {command : UInt8} (h : Script.Passed (commandSteps command) log) :
    panel.replay failed log = oledSendCommand command panel := replay_transfer h

theorem replay_pageSteps {page : UInt8} {data : List UInt8}
    (h : Script.Passed (pageSteps page data) log) :
    panel.replay failed log = oledWritePage page data panel := by
  obtain ⟨l, l4, rfl, h, h4⟩ := h.exists_append
  obtain ⟨l, l3, rfl, h, h3⟩ := h.exists_append
  obtain ⟨l1, l2, rfl, h1, h2⟩ := h.exists_append
  rw [Sh1106.replay_append, Sh1106.replay_append, Sh1106.replay_append, replay_commandSteps h1,
    replay_commandSteps h2, replay_commandSteps h3]
  exact replay_transfer h4

theorem succeeded_page {page : UInt8} {data : List UInt8} :
    ∀ step ∈ pageSteps page data, ∀ x, step.good x → Succeeded ⟨step.call, x⟩ := by
  simp only [pageSteps, List.forall_mem_append]
  exact ⟨⟨⟨succeeded_transfer, succeeded_transfer⟩, succeeded_transfer⟩, succeeded_transfer⟩

/-- Of the four transfers of a page, one is its data. -/
theorem pagesSent_page {page : UInt8} {data : List UInt8} (hdata : data.length = oledWidth)
    (h : Script.Passed (pageSteps page data) log) : pagesSent log = 1 := by
  rw [pagesSent, h.calls]
  show List.countP EspCall.isPage [.void _, .err (.spiDeviceTransmit [_]), .void _,
    .err (.spiDeviceTransmit [0x02]), .void _, .err (.spiDeviceTransmit [0x10]), .void _,
    .err (.spiDeviceTransmit data)] = 1
  simp [EspCall.isPage, hdata, oledWidth]

/-- The pages that have been sent. -/
def writePages (oledBuffer : Frame) (pages : List (Fin oledPages)) (panel : Sh1106) : Sh1106 :=
  pages.foldl (fun panel (page : Fin oledPages) =>
    oledWritePage (UInt8.ofNat page) (pageBytes oledBuffer page) panel) panel

theorem writePages_cons (oledBuffer : Frame) (page : Fin oledPages) (pages : List (Fin oledPages)) :
    writePages oledBuffer (page :: pages) panel = writePages oledBuffer pages
      (oledWritePage (UInt8.ofNat page) (pageBytes oledBuffer page) panel) := List.foldl_cons ..

variable {oledBuffer : Frame} {pages : List (Fin oledPages)}

theorem replay_pages (failed : List UInt8 → Sh1106 → Sh1106) (panel : Sh1106)
    (h : Script.Passed (pagesSteps oledBuffer pages) log) :
    panel.replay failed log = writePages oledBuffer pages panel ∧
      pagesSent log = pages.length := by
  induction pages generalizing panel log with
  | nil =>
    obtain ⟨⟩ := h
    exact ⟨rfl, rfl⟩
  | cons page pages ih =>
    rw [pagesSteps, List.flatMap_cons] at h
    obtain ⟨calls, rest, rfl, hcalls, hrest⟩ := h.exists_append
    obtain ⟨hreplay, hsent⟩ := ih _ hrest
    rw [Sh1106.replay_append, replay_pageSteps hcalls, hreplay, writePages_cons, pagesSent_append,
      pagesSent_page (length_pageBytes page) hcalls, hsent, List.length_cons]
    exact ⟨rfl, Nat.add_comm ..⟩

theorem succeeded_pages : ∀ step ∈ pagesSteps oledBuffer pages, ∀ x, step.good x →
    Succeeded ⟨step.call, x⟩ := by
  intro step hstep
  obtain ⟨page, -, hmem⟩ := List.mem_flatMap.mp hstep
  exact succeeded_page step hmem

/-! ### The first transfer that fails -/

/-- The log ends with a failed transfer, and in front of it are calls that succeeded, none of them
the data of a page, and that left the RAM alone. -/
def FailsInPage (failed : List UInt8 → Sh1106 → Sh1106)
    (log : List (Σ c : EspCall, c.Answer)) : Prop :=
  ∃ earlier bytes, ∃ err : EspErrT, log = earlier ++ [⟨.err (.spiDeviceTransmit bytes), err⟩] ∧
    err ≠ .espOk ∧ (∀ entry ∈ earlier, Succeeded entry) ∧ pagesSent earlier = 0 ∧
      ∀ panel, (Sh1106.replay failed panel earlier).ram = panel.ram

theorem failsInPage_transfer {level : Bool} {bytes : List UInt8}
    (h : Script.Halted (transferSteps level bytes) log) : FailsInPage failed log := by
  obtain hbad | ⟨-, h⟩ := h
  · exact absurd rfl hbad
  · obtain @⟨-, -, (err : EspErrT), hbad⟩ | ⟨-, ⟨⟩⟩ := h
    refine ⟨[⟨.void (.gpioSetLevel oledPinDc level), ()⟩], bytes, err, rfl,
      fun h => hbad (decide_eq_true h), ?_, rfl, fun panel => rfl⟩
    exact List.forall_mem_singleton.mpr trivial

/-- A command in front changes none of this. -/
theorem failsInPage_behind_command {command : UInt8} {steps : List EspStep}
    (hsteps : ∀ {log}, Script.Halted steps log → FailsInPage failed log)
    (h : Script.Halted (commandSteps command ++ steps) log) : FailsInPage failed log := by
  obtain h | ⟨first, second, rfl, hfirst, h⟩ := h.exists_append
  · exact failsInPage_transfer h
  · obtain ⟨earlier, bytes, err, rfl, herr, hsucceeded, hsent, hram⟩ := hsteps h
    refine ⟨first ++ earlier, bytes, err, (List.append_assoc ..).symm, herr, ?_, ?_, ?_⟩
    · exact List.forall_mem_append.mpr ⟨hfirst.forall_mem succeeded_transfer, hsucceeded⟩
    · rw [pagesSent_append, hsent, pagesSent, hfirst.calls]
      rfl
    · intro panel
      rw [Sh1106.replay_append, hram, replay_commandSteps hfirst, oledSendCommand_ram]

/-- The data of a page comes last. -/
theorem failsInPage_page (failed : List UInt8 → Sh1106 → Sh1106) {page : UInt8}
    {data : List UInt8} (h : Script.Halted (pageSteps page data) log) : FailsInPage failed log := by
  rw [pageSteps, List.append_assoc, List.append_assoc] at h
  exact failsInPage_behind_command (failsInPage_behind_command
    (failsInPage_behind_command failsInPage_transfer)) h

/-- The pages above the `k`-th show the framebuffer, and the rest of the RAM is as it was. -/
structure PagesShown (oledBuffer : Frame) (k : ℕ) (before after : Sh1106) : Prop where
  shown : ∀ (page : Fin oledPages) (column : Fin oledWidth), page < k →
    after.ram page (column + sh1106Offset) =
      oledBuffer ⟨page * oledWidth + column, page_index_lt page column⟩
  kept : ∀ page column, k ≤ page ∨ column < sh1106Offset ∨ oledWidth + sh1106Offset ≤ column →
    after.ram page column = before.ram page column

theorem mem_take_finRange : ∀ {k : ℕ}, k ≤ oledPages → ∀ {page : Fin oledPages},
    page ∈ (List.finRange oledPages).take k ↔ page < k := by
  decide

theorem pagesShown_writePages {k : ℕ} {after : Sh1106} (hk : k ≤ oledPages)
    (hram : after.ram = (writePages oledBuffer ((List.finRange oledPages).take k) panel).ram) :
    PagesShown oledBuffer k panel after := by
  constructor
  case shown =>
    intro page column hpage
    have hcolumn := column.isLt
    rw [hram, writePages, writePages_ram,
      dif_pos ⟨⟨page, (mem_take_finRange hk).mpr hpage, rfl⟩, by omega, by omega⟩]
    congr 2
  case kept =>
    intro page column hout
    rw [hram, writePages, writePages_ram, dif_neg]
    rintro ⟨⟨row, hrow, rfl⟩, h1, h2⟩
    have hlt := (mem_take_finRange hk).mp hrow
    omega

/-- The two ways in which `oled_flush` ends: all its calls have succeeded, or it was aborted at the
first one that failed, a transfer. -/
inductive FlushRun (failed : List UInt8 → Sh1106 → Sh1106) (oledBuffer : Frame) (panel : Sh1106) :
    List (Σ c : EspCall, c.Answer) → Option EspErrT → Prop
  | returned {log : List (Σ c : EspCall, c.Answer)} : (∀ entry ∈ log, Succeeded entry) →
      log.map Sigma.fst = (flushSteps oledBuffer).map Script.Step.call →
      pagesSent log = oledPages →
      PagesShown oledBuffer oledPages panel (panel.replay failed log) →
      FlushRun failed oledBuffer panel log (some .espOk)
  | aborted {earlier : List (Σ c : EspCall, c.Answer)} {bytes : List UInt8} {err : EspErrT} :
      (∀ entry ∈ earlier, Succeeded entry) → err ≠ .espOk →
      earlier.map Sigma.fst ++ [.err (.spiDeviceTransmit bytes)] <+:
        (flushSteps oledBuffer).map Script.Step.call →
      pagesSent earlier < oledPages →
      PagesShown oledBuffer (pagesSent earlier) panel (panel.replay failed earlier) →
      FlushRun failed oledBuffer panel
        (earlier ++ [⟨.err (.spiDeviceTransmit bytes), err⟩]) none

theorem flushRun_of_passed (h : Script.Passed (flushSteps oledBuffer) log) :
    FlushRun failed oledBuffer panel log (some .espOk) := by
  obtain ⟨hreplay, hsent⟩ := replay_pages failed panel h
  rw [List.length_finRange] at hsent
  refine .returned (h.forall_mem succeeded_pages) h.calls hsent ?_
  exact pagesShown_writePages le_rfl (congrArg Sh1106.ram hreplay)

theorem flushRun_of_halted (h : Script.Halted (flushSteps oledBuffer) log) :
    FlushRun failed oledBuffer panel log none := by
  have hcalls := h.calls
  obtain ⟨before, page, after, first, second, hpages, rfl, hfirst, hsecond⟩ := h.exists_flatMap
  obtain ⟨earlier, bytes, err, rfl, herr, hsucceeded, hsent, hram⟩ :=
    failsInPage_page failed hsecond
  obtain ⟨hreplay, hsent'⟩ := replay_pages failed panel hfirst
  have hlt : before.length < oledPages := by
    have hlength := congrArg List.length hpages
    rw [List.length_finRange, List.length_append, List.length_cons] at hlength
    omega
  have htotal : pagesSent (first ++ earlier) = before.length := by
    rw [pagesSent_append, hsent', hsent, Nat.add_zero]
  rw [← List.append_assoc] at hcalls ⊢
  rw [List.map_append] at hcalls
  refine .aborted (List.forall_mem_append.mpr ⟨hfirst.forall_mem succeeded_pages, hsucceeded⟩) herr
    hcalls (htotal.trans_lt hlt) ?_
  rw [htotal]
  refine pagesShown_writePages hlt.le ?_
  rw [Sh1106.replay_append, hram, hreplay, hpages, List.take_left' rfl]

/-- **`oled_flush` ends in one of two ways, whatever the transfers return and whatever a failed one
does to the panel.** If all succeed, it returns and the panel shows the framebuffer. Otherwise the
firmware is aborted at the first transfer that failed, and until then the pages that had been sent
showed the framebuffer and the rest of the RAM was as it had been. -/
theorem oledFlushCalls_pages (answer : List (Σ c : EspCall, c.Answer) → (c : EspCall) → c.Answer)
    (past : List (Σ c : EspCall, c.Answer)) (failed : List UInt8 → Sh1106 → Sh1106)
    (oledBuffer : Frame) (panel : Sh1106) :
    let run := (oledFlushCalls oledBuffer).play answer past
    FlushRun failed oledBuffer panel run.1 run.2 := by
  intro run
  have h : Script.Runs (oledFlushCalls oledBuffer) run.1 run.2 := Script.runs_play answer past _
  generalize run.1 = log, run.2 = out at h ⊢
  rw [oledFlushCalls_eq, Script.runs_bind_iff] at h
  obtain ⟨calls, a, rest, rfl, hcalls, hrest⟩ | ⟨hnone, rfl⟩ := h
  · obtain ⟨rfl, rfl⟩ := Script.runs_pure_iff.mp hrest
    obtain ⟨hpassed, -⟩ | ⟨-, ⟨⟩⟩ := Script.runs_straight_iff.mp hcalls
    rw [List.append_nil]
    exact flushRun_of_passed hpassed
  · obtain ⟨-, ⟨⟩⟩ | ⟨hhalted, -⟩ := Script.runs_straight_iff.mp hnone
    exact flushRun_of_halted hhalted

end PresenceDevice
