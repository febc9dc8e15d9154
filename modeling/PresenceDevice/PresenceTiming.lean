import Mathlib.Data.List.Chain
import PresenceDevice.Library.TickCounter
import PresenceDevice.PresenceSession

/-!
# The state of the presence module, in closed form

The module keeps one deadline on a tick counter that wraps around, sets it on every press and
compares it at every update. In a well-timed run, whose updates are less than half a turn of the
counter apart, the comparison always comes out as it would on true times, and the module is a
`Session`. The state after any such run is then a closed expression in the calls made since the
message was shown.

## Main definitions

* `timedRun`: a run whose calls are made at true times
* `WellTimed`: time does not go backwards, and updates are not too far apart
* `livePresses`, `ClosedForm`: the closed form

## Main results

* `timedRun_eq_session`: the module is a session
* `timedRun_closedForm`: the state after every well-timed run
-/

namespace PresenceDevice

/-- A run whose calls are stamped with true times: the counter shows them modulo `2 ^ 32`. -/
def timedRun (pdMsToTicks : ℕ → TickType) (oled : Oled) (calls : List (ℕ × PresenceCall)) :
    Presence :=
  presenceRun pdMsToTicks oled (calls.map fun e => (BitVec.ofNat 32 e.1, e.2))

/-- The times of the updates. -/
def updateTimes (calls : List (ℕ × PresenceCall)) : List ℕ :=
  calls.filterMap fun e =>
    match e.2 with
    | .update => some e.1
    | _ => none

/-- The run starts at `start`, its times do not decrease, and from the start to the first update
and from each update to the next it takes less than `2 ^ 31` ticks. -/
structure WellTimed (start : ℕ) (calls : List (ℕ × PresenceCall)) : Prop where
  ordered : (start :: calls.map Prod.fst).Pairwise (· ≤ ·)
  updates : (start :: updateTimes calls).IsChain fun t u => u < t + 2 ^ 31

/-- The time of the last update, or the start. -/
def lastUpdate (start : ℕ) (calls : List (ℕ × PresenceCall)) : ℕ :=
  (updateTimes calls).getLast?.getD start

variable {start timeout : ℕ} {calls : List (ℕ × PresenceCall)} {e : ℕ × PresenceCall}

/-! ### Well-timed runs -/

theorem WellTimed.of_append {more : List (ℕ × PresenceCall)}
    (h : WellTimed start (calls ++ more)) : WellTimed start calls where
  ordered := h.ordered.sublist (by simp)
  updates := by
    have hchain := h.updates
    rw [updateTimes, List.filterMap_append, ← List.cons_append, List.isChain_append] at hchain
    exact hchain.1

/-- A call comes no earlier than the calls before it. -/
theorem WellTimed.le_of_concat (h : WellTimed start (calls ++ [e])) :
    ∀ t ∈ start :: calls.map Prod.fst, t ≤ e.1 := by
  intro t ht
  have hordered := h.ordered
  rw [List.map_append, ← List.cons_append, List.pairwise_append] at hordered
  exact hordered.2.2 t ht e.1 (by simp)

/-- An update comes less than half a turn after the one before it. -/
theorem WellTimed.lt_of_update {u : ℕ} (h : WellTimed start (calls ++ [(u, .update)])) :
    u < lastUpdate start calls + 2 ^ 31 := by
  have hchain := h.updates
  rw [updateTimes, List.filterMap_append, ← List.cons_append, List.isChain_append] at hchain
  refine hchain.2.2 _ ?_ u (by simp)
  rw [List.getLast?_cons]
  rfl

theorem lastUpdate_concat : lastUpdate start (calls ++ [e]) =
    match e.2 with
    | .update => e.1
    | _ => lastUpdate start calls := by
  obtain ⟨t, call⟩ := e
  rw [lastUpdate, updateTimes, List.filterMap_append]
  cases call <;> simp [lastUpdate, updateTimes]

theorem lastUpdate_mem (start : ℕ) (calls : List (ℕ × PresenceCall)) :
    lastUpdate start calls ∈ start :: calls.map Prod.fst := by
  induction calls using List.reverseRecOn with
  | nil => simp [lastUpdate, updateTimes]
  | append_singleton calls e ih =>
    rw [lastUpdate_concat, List.map_append, ← List.cons_append]
    obtain ⟨t, call⟩ := e
    cases call with
    | update => exact List.mem_append_right _ (List.mem_singleton_self _)
    | showMessage | nextPage | acknowledge => exact List.mem_append_left _ ih

/-! ### The module is a session -/

/-- After `calls`, the module is in the state that the session `s` of the message `m` stands for,
and while a page is being read its deadline is the true one. -/
structure Refines (timeout start : ℕ) (calls : List (ℕ × PresenceCall)) (m : AgentMessage)
    (s : Session) (p : Presence) : Prop where
  represents : Represents (some m) p
  model : p.presenceState = s.model m.pageCount
  deadline : s.putAway = false → ∀ t, s.presses.getLast? = some t →
    p.presenceDeadline = BitVec.ofNat 32 (t + timeout) ∧ lastUpdate start calls < t + timeout

variable {m : AgentMessage} {s : Session} {p : Presence}

/-- The counter's test for the end of a reading, in a well-timed run. -/
theorem readingExpired_iff (h : Refines timeout start calls m s p) (hlt : timeout < 2 ^ 31)
    (hmem : ∀ t ∈ s.presses, t ∈ calls.map Prod.fst) {u : ℕ}
    (htimed : WellTimed start (calls ++ [(u, .update)])) :
    ReadingExpired (BitVec.ofNat 32 u) p ↔
      s.putAway = false ∧ s.presses.getLast?.any (· + timeout ≤ u) = true := by
  rw [ReadingExpired, h.model]
  cases hput : s.putAway with
  | true => simp [Session.model, hput]
  | false =>
    cases hlast : s.presses.getLast? with
    | none =>
      have hnil := List.getLast?_eq_none_iff.mp hlast
      simp [Session.model, hput, hnil]
    | some t =>
      obtain ⟨hdeadline, hupdate⟩ := h.deadline hput t hlast
      have hne : s.presses ≠ [] := by
        rintro hnil
        rw [hnil] at hlast
        cases hlast
      have hpress := htimed.le_of_concat t
        (List.mem_cons_of_mem _ (hmem t (List.mem_of_getLast? hlast)))
      have hnear := htimed.lt_of_update
      have htest := TickCounter.toInt_sub_nonneg_iff (w := 32) (u := u) (d := t + timeout)
        (by omega) (by omega)
      rw [hdeadline, htest]
      simp [Session.model, hput, hne]

section

variable {now : ℕ}

/-- A press turns the page and sets the deadline. -/
theorem Refines.nextPage (h : Refines timeout start calls m s p) (pdMsToTicks : ℕ → TickType)
    (htimeout : (pdMsToTicks readingTimeoutMs).toNat = timeout) (hpos : 0 < timeout)
    (htimed : WellTimed start (calls ++ [(now, .nextPage)])) :
    Refines timeout start (calls ++ [(now, .nextPage)]) m (s.next timeout (now, .nextPage))
      (presenceNextPage pdMsToTicks (BitVec.ofNat 32 now) p) := by
  cases hput : s.putAway with
  | true =>
    have hidle : p.presenceState.state = .idle := by
      rw [h.model]
      exact Session.model_state_eq_idle_iff.mpr hput
    have hsame : s.next timeout (now, .nextPage) = s := if_pos hput
    rw [presenceNextPage_of_idle _ _ hidle, hsame]
    exact ⟨h.represents, h.model, fun hput' => by rw [hput] at hput'; cases hput'⟩
  | false =>
    have hstate : p.presenceState.state ≠ .idle := by
      rw [h.model, Ne, Session.model_state_eq_idle_iff, hput]
      exact Bool.false_ne_true
    have hnext : s.next timeout (now, .nextPage) = ⟨false, s.presses ++ [now]⟩ := by
      simp [Session.next, hput]
    rw [presenceNextPage_of_ne_idle h.represents _ _ hstate, hnext]
    refine ⟨(turnPage_represents h.represents _ _ hstate).drawn, ?_, fun _ t hlast => ?_⟩
    · have hpage : min (min s.presses.length (m.pageCount - 1) + 1) (m.pageCount - 1) =
          min (s.presses.length + 1) (m.pageCount - 1) := by omega
      show (⟨_, _, _⟩ : PresenceStateModel) = _
      rw [h.model]
      simp [Session.model, hpage]
    · obtain rfl : now = t := by simpa using hlast
      have hupdate := htimed.le_of_concat _ (lastUpdate_mem start calls)
      rw [lastUpdate_concat, ← htimeout]
      refine ⟨TickCounter.ofNat_add_eq now _, ?_⟩
      show lastUpdate start calls < _
      omega

/-- An acknowledge puts the message away. -/
theorem Refines.acknowledge (h : Refines timeout start calls m s p) :
    Refines timeout start (calls ++ [(now, .acknowledge)]) m (s.next timeout (now, .acknowledge))
      (presenceAcknowledge p) := by
  rw [presenceAcknowledge_eq h.represents]
  refine ⟨(putAway_represents h.represents 0).cleared, ?_, fun hput => by cases hput⟩
  show ({ p.presenceState with state := .idle } : PresenceStateModel) = _
  rw [h.model]
  rfl

/-- An update puts the message away when the deadline has passed. -/
theorem Refines.update (h : Refines timeout start calls m s p) (hlt : timeout < 2 ^ 31)
    (hmem : ∀ t ∈ s.presses, t ∈ calls.map Prod.fst)
    (htimed : WellTimed start (calls ++ [(now, .update)])) :
    Refines timeout start (calls ++ [(now, .update)]) m (s.next timeout (now, .update))
      (presenceUpdate (BitVec.ofNat 32 now) p) := by
  have hexpired := readingExpired_iff h hlt hmem htimed
  rw [presenceUpdate_eq h.represents]
  split_ifs with hexp
  · have hany := (hexpired.mp hexp).2
    have hnext : s.next timeout (now, .update) = ⟨true, s.presses⟩ := by
      rw [Session.next, hany, Bool.or_true]
    rw [hnext]
    refine ⟨(putAway_represents h.represents _).cleared, ?_, fun hput => by cases hput⟩
    show ({ p.presenceState with state := .idle } : PresenceStateModel) = _
    rw [h.model]
    rfl
  · have hkept : s.putAway = false → ¬ s.presses.getLast?.any (· + timeout ≤ now) = true :=
      fun hput hany => hexp (hexpired.mpr ⟨hput, hany⟩)
    have hsame : (s.putAway || s.presses.getLast?.any (· + timeout ≤ now)) = s.putAway := by
      cases hput : s.putAway with
      | true => rfl
      | false => exact Bool.eq_false_of_not_eq_true (hkept hput)
    have hnext : s.next timeout (now, .update) = s := by
      rw [Session.next, hsame]
    rw [hnext]
    refine ⟨h.represents, h.model, ?_⟩
    intro hput t hlast
    rw [lastUpdate_concat]
    refine ⟨(h.deadline hput t hlast).1, ?_⟩
    have hlater := hkept hput
    rw [hlast, Option.any_some, decide_eq_true_eq] at hlater
    exact Nat.lt_of_not_le hlater

end

/-- **Every call takes the module from session to session.** -/
theorem Refines.next (h : Refines timeout start calls m s p) (pdMsToTicks : ℕ → TickType)
    (htimeout : (pdMsToTicks readingTimeoutMs).toNat = timeout) (hpos : 0 < timeout)
    (hlt : timeout < 2 ^ 31) (hmem : ∀ t ∈ s.presses, t ∈ calls.map Prod.fst)
    (htimed : WellTimed start (calls ++ [e])) (hnew : ∀ m', e.2 ≠ .showMessage (some m')) :
    Refines timeout start (calls ++ [e]) m (s.next timeout e)
      (presenceCall pdMsToTicks (BitVec.ofNat 32 e.1) p e.2) := by
  obtain ⟨now, call⟩ := e
  cases call with
  | showMessage message =>
    cases message with
    | none =>
      refine ⟨h.represents, h.model, ?_⟩
      intro hput t hlast
      rw [lastUpdate_concat]
      exact h.deadline hput t hlast
    | some m' => exact absurd rfl (hnew m')
  | nextPage => exact h.nextPage pdMsToTicks htimeout hpos htimed
  | acknowledge => exact h.acknowledge
  | update => exact h.update hlt hmem htimed

/-! ### Whole runs -/

/-- No further message is shown. -/
def NoMessage (calls : List (ℕ × PresenceCall)) : Prop :=
  ∀ e ∈ calls, ∀ m, e.2 ≠ .showMessage (some m)

theorem timedRun_concat (pdMsToTicks : ℕ → TickType) (oled : Oled) :
    timedRun pdMsToTicks oled (calls ++ [e]) =
      presenceCall pdMsToTicks (BitVec.ofNat 32 e.1) (timedRun pdMsToTicks oled calls) e.2 := by
  rw [timedRun, List.map_append, presenceRun, Machine.run_append]
  rfl

theorem timedRun_represents (pdMsToTicks : ℕ → TickType) (oled : Oled)
    (calls : List (ℕ × PresenceCall)) :
    Represents (latestMessage (calls.map Prod.snd)) (timedRun pdMsToTicks oled calls) := by
  have h := presenceRun_represents pdMsToTicks oled
    (calls.map fun e => (BitVec.ofNat 32 e.1, e.2))
  rwa [List.map_map] at h

theorem latestMessage_eq_none (h : NoMessage calls) :
    latestMessage (calls.map Prod.snd) = none := by
  induction calls using List.reverseRecOn with
  | nil => rfl
  | append_singleton calls e ih =>
    have hcalls := ih fun e he => h e (List.mem_append_left _ he)
    have hlast := h e (List.mem_append_right _ (List.mem_singleton_self e))
    rw [List.map_append, latestMessage, Machine.run_append]
    change nextMessage (latestMessage (calls.map Prod.snd)) e.2 = none
    rw [hcalls]
    obtain ⟨t, call⟩ := e
    cases call with
    | showMessage message =>
      cases message with
      | none => rfl
      | some m => exact absurd rfl (hlast m)
    | nextPage | acknowledge | update => rfl

/-- The calls of a run in which a message is shown at time `t`, followed by `rest`. -/
def withMessage (before : List (ℕ × PresenceCall)) (t : ℕ) (m : AgentMessage)
    (rest : List (ℕ × PresenceCall)) : List (ℕ × PresenceCall) :=
  before ++ (t, .showMessage (some m)) :: rest

theorem withMessage_concat (before : List (ℕ × PresenceCall)) (t : ℕ) (m : AgentMessage)
    (rest : List (ℕ × PresenceCall)) (e : ℕ × PresenceCall) :
    withMessage before t m (rest ++ [e]) = withMessage before t m rest ++ [e] := by
  simp [withMessage]

section

variable {pdMsToTicks : ℕ → TickType} {oled : Oled} {before rest : List (ℕ × PresenceCall)} {t : ℕ}

/-- **The module is a session** from the moment a message is shown. -/
theorem timedRun_refines (oled : Oled) (htimeout : (pdMsToTicks readingTimeoutMs).toNat = timeout)
    (hpos : 0 < timeout) (hlt : timeout < 2 ^ 31)
    (htimed : WellTimed start (withMessage before t m rest)) (hrest : NoMessage rest) :
    Refines timeout start (withMessage before t m rest) m (session timeout rest)
      (timedRun pdMsToTicks oled (withMessage before t m rest)) := by
  induction rest using List.reverseRecOn with
  | nil =>
    have h := timedRun_represents pdMsToTicks oled before
    rw [withMessage, timedRun_concat, presenceCall, presenceShowMessage_some h]
    refine ⟨(storeMessage_represents h m).drawn, ?_, fun _ t hlast => by cases hlast⟩
    show (⟨.unread, 0, m.pageCount⟩ : PresenceStateModel) = _
    simp [Session.model]
  | append_singleton rest e ih =>
    rw [withMessage_concat] at htimed
    have h := ih htimed.of_append fun e he => hrest e (List.mem_append_left _ he)
    have hmem : ∀ u ∈ (session timeout rest).presses,
        u ∈ (withMessage before t m rest).map Prod.fst := by
      intro u hu
      have := mem_times_of_mem_presses hu
      simp only [withMessage, List.map_append, List.map_cons, List.mem_append, List.mem_cons]
      exact Or.inr (Or.inr this)
    rw [withMessage_concat, timedRun_concat, session_concat]
    exact h.next pdMsToTicks htimeout hpos hlt hmem htimed
      (hrest e (List.mem_append_right _ (List.mem_singleton_self e)))

end

/-! ### The closed form -/

/-- The time of a call that is a press. -/
def pressTime : ℕ × PresenceCall → Option ℕ
  | (t, .nextPage) => some t
  | _ => none

/-- The times of the presses in `rest` that do not find the model idle, where `after` gives the
model after the message and some further calls. -/
def livePresses (after : List (ℕ × PresenceCall) → PresenceStateModel)
    (rest : List (ℕ × PresenceCall)) : List ℕ :=
  (List.range rest.length).filterMap fun i =>
    if (after (rest.take i)).state = .idle then none else rest[i]?.bind pressTime

/-- The model `after rest` the message `m` and the calls `rest`, when no newer message is among
them. -/
structure ClosedForm (timeout : ℕ) (m : AgentMessage)
    (after : List (ℕ × PresenceCall) → PresenceStateModel) (rest : List (ℕ × PresenceCall)) :
    Prop where
  idle_iff : (after rest).state = .idle ↔ (∃ t, (t, .acknowledge) ∈ rest) ∨
    ∃ r₁ u r₂ t, rest = r₁ ++ (u, .update) :: r₂ ∧
      (livePresses after r₁).getLast? = some t ∧ t + timeout ≤ u
  reading_iff : (after rest).state = .reading ↔
    (after rest).state ≠ .idle ∧ ∃ t, (t, .nextPage) ∈ rest
  unread_iff : (after rest).state = .unread ↔
    (after rest).state ≠ .idle ∧ ∀ t, (t, .nextPage) ∉ rest
  current_page : (after rest).currentPage = min (livePresses after rest).length (m.pageCount - 1)
  page_count : (after rest).pageCount = m.pageCount

theorem livePresses_concat (after : List (ℕ × PresenceCall) → PresenceStateModel)
    (rest : List (ℕ × PresenceCall)) (e : ℕ × PresenceCall) :
    livePresses after (rest ++ [e]) =
      livePresses after rest ++
        if (after rest).state = .idle then [] else (pressTime e).toList := by
  have hold : (List.range rest.length).filterMap (fun i =>
      if (after ((rest ++ [e]).take i)).state = .idle then none
        else (rest ++ [e])[i]?.bind pressTime) = livePresses after rest := by
    refine List.filterMap_congr ?_
    intro i hi
    have hlt := List.mem_range.mp hi
    rw [List.getElem?_append_left hlt, List.take_append_of_le_length hlt.le]
  rw [livePresses, List.length_append, List.length_singleton, List.range_succ,
    List.filterMap_append, hold]
  by_cases hidle : (after rest).state = .idle
  · simp [hidle]
  · cases hpress : pressTime e <;> simp [hidle, hpress]

/-- The presses of a session are the presses that did not find the model idle. -/
theorem session_presses_eq (after : List (ℕ × PresenceCall) → PresenceStateModel)
    (h : ∀ r, r <+: calls → ((after r).state = .idle ↔ (session timeout r).putAway = true)) :
    (session timeout calls).presses = livePresses after calls := by
  induction calls using List.reverseRecOn with
  | nil => rfl
  | append_singleton calls e ih =>
    have hcalls := ih fun r hr => h r (hr.trans (List.prefix_append ..))
    have hidle := h calls (List.prefix_append ..)
    rw [livePresses_concat, ← hcalls, session_concat]
    obtain ⟨t, call⟩ := e
    cases call with
    | nextPage =>
      by_cases hput : (session timeout calls).putAway = true
      · simp [Session.next, hput, hidle.mpr hput]
      · simp [Session.next, hput, mt hidle.mp hput, pressTime]
    | showMessage | acknowledge | update => simp [Session.next, pressTime]

section

variable {pdMsToTicks : ℕ → TickType} {oled : Oled} {before rest : List (ℕ × PresenceCall)} {t : ℕ}

/-- The model after a message and the calls that follow it. -/
def modelAfter (pdMsToTicks : ℕ → TickType) (oled : Oled) (before : List (ℕ × PresenceCall)) (t : ℕ)
    (m : AgentMessage) (rest : List (ℕ × PresenceCall)) : PresenceStateModel :=
  (timedRun pdMsToTicks oled (withMessage before t m rest)).presenceState

theorem modelAfter_closedForm (htimeout : (pdMsToTicks readingTimeoutMs).toNat = timeout)
    (hpos : 0 < timeout) (hlt : timeout < 2 ^ 31)
    (htimed : WellTimed start (withMessage before t m rest)) (hrest : NoMessage rest) :
    ClosedForm timeout m (modelAfter pdMsToTicks oled before t m) rest := by
  have hmodel : ∀ r, r <+: rest →
      modelAfter pdMsToTicks oled before t m r = (session timeout r).model m.pageCount := by
    rintro r ⟨more, rfl⟩
    have htimed' : WellTimed start (withMessage before t m r ++ more) := by
      rwa [withMessage, List.append_assoc, List.cons_append]
    exact (timedRun_refines oled htimeout hpos hlt htimed'.of_append
      fun e he => hrest e (List.mem_append_left _ he)).model
  have hidle : ∀ r, r <+: rest → ((modelAfter pdMsToTicks oled before t m r).state = .idle ↔
      (session timeout r).putAway = true) := by
    intro r hr
    rw [hmodel r hr]
    exact Session.model_state_eq_idle_iff
  have hpresses : ∀ r, r <+: rest → (session timeout r).presses =
      livePresses (modelAfter pdMsToTicks oled before t m) r :=
    fun r hr => session_presses_eq _ fun r' hr' => hidle r' (hr'.trans hr)
  have hself := List.prefix_refl rest
  constructor
  case idle_iff =>
    rw [hidle rest hself, session_putAway_iff]
    refine or_congr_right (exists_congr fun r₁ => exists_congr fun u => exists_congr fun r₂ =>
      exists_congr fun s => and_congr_right fun heq => ?_)
    rw [hpresses r₁ (heq ▸ List.prefix_append ..)]
  case reading_iff =>
    rw [Ne, hidle rest hself, hmodel rest hself, Session.model_state_eq_reading_iff,
      Bool.not_eq_true]
    refine and_congr_right ?_
    intro hput
    rw [Ne, session_presses_eq_nil_iff hput]
    simp only [not_forall, not_not]
  case unread_iff =>
    rw [Ne, hidle rest hself, hmodel rest hself, Session.model_state_eq_unread_iff,
      Bool.not_eq_true]
    exact and_congr_right fun hput => session_presses_eq_nil_iff hput
  case current_page =>
    rw [hmodel rest hself, ← hpresses rest hself]
    rfl
  case page_count => rw [hmodel rest hself, Session.model]

end

/-- Every run is one without a message, or it has a last message. -/
theorem noMessage_or_withMessage (calls : List (ℕ × PresenceCall)) :
    NoMessage calls ∨ ∃ before t m rest, calls = withMessage before t m rest ∧ NoMessage rest := by
  induction calls using List.reverseRecOn with
  | nil => exact Or.inl fun e he => by cases he
  | append_singleton calls e ih =>
    by_cases hnew : ∃ m, e.2 = .showMessage (some m)
    · obtain ⟨m, hm⟩ := hnew
      refine Or.inr ⟨calls, e.1, m, [], ?_, fun e he => by cases he⟩
      rw [withMessage, ← hm]
    · have hlast : ∀ m, e.2 ≠ .showMessage (some m) := fun m hm => hnew ⟨m, hm⟩
      have hconcat : ∀ {l}, NoMessage l → NoMessage (l ++ [e]) := by
        intro l hl e' he'
        rcases List.mem_append.mp he' with he' | he'
        · exact hl e' he'
        · obtain rfl := List.mem_singleton.mp he'
          exact hlast
      rcases ih with hcalls | ⟨before, t, m, rest, rfl, hrest⟩
      · exact Or.inl (hconcat hcalls)
      · exact Or.inr ⟨before, t, m, rest ++ [e], (withMessage_concat ..).symm, hconcat hrest⟩

/-- **The state after every well-timed run, in closed form.** It depends only on the last message
and the calls that follow it. -/
theorem timedRun_closedForm (pdMsToTicks : ℕ → TickType)
    (hpos : 0 < (pdMsToTicks readingTimeoutMs).toNat)
    (hlt : (pdMsToTicks readingTimeoutMs).toNat < 2 ^ 31) :
    (∀ oled start calls, WellTimed start calls →
      (NoMessage calls ∧ (timedRun pdMsToTicks oled calls).presenceState = presenceStateInit) ∨
        ∃ before t m rest, calls = withMessage before t m rest ∧ NoMessage rest ∧
          ClosedForm (pdMsToTicks readingTimeoutMs).toNat m (modelAfter pdMsToTicks oled before t m)
            rest) ∧
    ∀ oled oled' start start' before before' t t' m rest, NoMessage rest →
      WellTimed start (withMessage before t m rest) →
      WellTimed start' (withMessage before' t' m rest) →
        modelAfter pdMsToTicks oled before t m rest
          = modelAfter pdMsToTicks oled' before' t' m rest := by
  constructor
  · intro oled start calls htimed
    rcases noMessage_or_withMessage calls with hnone | ⟨before, t, m, rest, rfl, hrest⟩
    · have h := timedRun_represents pdMsToTicks oled calls
      exact Or.inl ⟨hnone, h.none_shown (latestMessage_eq_none hnone)⟩
    · exact Or.inr ⟨before, t, m, rest, rfl, hrest,
        modelAfter_closedForm rfl hpos hlt htimed hrest⟩
  · intro oled oled' start start' before before' t t' m rest hrest htimed htimed'
    have h := timedRun_refines oled rfl hpos hlt htimed hrest
    have h' := timedRun_refines oled' rfl hpos hlt htimed' hrest
    exact h.model.trans h'.model.symm

/-- A page turned at 3 ticks is on display for 1000 ticks. -/
def readBuildMessage : List (ℕ × PresenceCall) :=
  withMessage [] 0 buildMessage [(3, .nextPage), (1002, .update), (1003, .update)]

theorem timedRun_closedForm_readBuildMessage :
    (NoMessage readBuildMessage ∧
        (timedRun pdMsToTicks100Hz oledPowerUp readBuildMessage).presenceState =
          presenceStateInit) ∨
      ∃ before t m rest, readBuildMessage = withMessage before t m rest ∧ NoMessage rest ∧
        ClosedForm (pdMsToTicks100Hz readingTimeoutMs).toNat m
          (modelAfter pdMsToTicks100Hz oledPowerUp before t m) rest :=
  (timedRun_closedForm pdMsToTicks100Hz (by decide) (by decide)).1 oledPowerUp 0 readBuildMessage
    ⟨by decide, by decide⟩

end PresenceDevice
