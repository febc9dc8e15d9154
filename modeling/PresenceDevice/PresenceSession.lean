import PresenceDevice.PresenceRun

/-!
# The life of a message, in true time

What the presence module is for, without counters that wrap and without a deadline: a message is
on display until it is put away, by an acknowledge or because nobody has turned a page for a while.
A session records whether that has happened and when the pages were turned, with times as plain
numbers.

## Main definitions

* `Session`, `Session.next`, `session`: the abstract module, from the moment a message is shown
* `Session.model`: the state of the presence module that a session stands for

## Main results

* `session_putAway_iff`: when a message has been put away
-/

namespace PresenceDevice

/-- Whether the message has been put away, and when the button was pressed before that. -/
structure Session where
  putAway : Bool
  presses : List ℕ

/-- One call at a true time; `timeout` is the time a page is left on display. -/
def Session.next (timeout : ℕ) (s : Session) (e : ℕ × PresenceCall) : Session :=
  match e.2 with
  | .showMessage _ => s
  | .nextPage => if s.putAway then s else { s with presses := s.presses ++ [e.1] }
  | .acknowledge => { s with putAway := true }
  | .update => { s with putAway := s.putAway || s.presses.getLast?.any (· + timeout ≤ e.1) }

/-- The session after the calls since the message was shown. -/
def session (timeout : ℕ) (calls : List (ℕ × PresenceCall)) : Session :=
  Machine.run (Session.next timeout) ⟨false, []⟩ calls

/-- The model that a session stands for, when the message has `pageCount` pages. -/
def Session.model (s : Session) (pageCount : ℕ) : PresenceStateModel where
  state := if s.putAway then .idle else if s.presses = [] then .unread else .reading
  currentPage := min s.presses.length (pageCount - 1)
  pageCount := pageCount

variable {timeout : ℕ} {s : Session} {calls : List (ℕ × PresenceCall)} {e : ℕ × PresenceCall}

@[simp] theorem session_nil : session timeout [] = ⟨false, []⟩ := rfl

@[simp] theorem session_concat :
    session timeout (calls ++ [e]) = (session timeout calls).next timeout e :=
  Machine.run_append ..

/-! ### The model of a session -/

variable {pageCount : ℕ}

/-- The three states of a message, told apart by its session. -/
theorem Session.model_state_cases (s : Session) (pageCount : ℕ) :
    (s.putAway = true ∧ (s.model pageCount).state = .idle) ∨
      (s.putAway = false ∧ s.presses = [] ∧ (s.model pageCount).state = .unread) ∨
      (s.putAway = false ∧ s.presses ≠ [] ∧ (s.model pageCount).state = .reading) := by
  simp only [model]
  by_cases hput : s.putAway = true
  · simp [hput]
  · by_cases hnil : s.presses = [] <;> simp [hput, hnil]

theorem Session.model_state_eq_idle_iff :
    (s.model pageCount).state = .idle ↔ s.putAway = true := by
  rcases s.model_state_cases pageCount with ⟨hput, hs⟩ | ⟨hput, -, hs⟩ | ⟨hput, -, hs⟩ <;>
    simp [hput, hs]

theorem Session.model_state_eq_unread_iff :
    (s.model pageCount).state = .unread ↔ s.putAway = false ∧ s.presses = [] := by
  rcases s.model_state_cases pageCount with ⟨hput, hs⟩ | ⟨hput, hnil, hs⟩ | ⟨hput, hnil, hs⟩
  · simp [hput, hs]
  · simp [hput, hs, hnil]
  · simp [hput, hs, hnil]

theorem Session.model_state_eq_reading_iff :
    (s.model pageCount).state = .reading ↔ s.putAway = false ∧ s.presses ≠ [] := by
  rcases s.model_state_cases pageCount with ⟨hput, hs⟩ | ⟨hput, hnil, hs⟩ | ⟨hput, hnil, hs⟩
  · simp [hput, hs]
  · simp [hput, hs, hnil]
  · simp [hput, hs, hnil]

/-! ### Putting away -/

theorem Session.putAway_next (h : s.putAway = true) : (s.next timeout e).putAway = true := by
  obtain ⟨t, call⟩ := e
  cases call <;> simp [next, h]

theorem Session.putAway_run (h : s.putAway = true) (calls : List (ℕ × PresenceCall)) :
    (Machine.run (Session.next timeout) s calls).putAway = true :=
  Machine.run_invariant (I := fun s : Session => s.putAway = true)
    (fun _ _ h => putAway_next h) h calls

/-- What has not been put away by now was not put away before. -/
theorem Session.not_putAway_of_next (h : (s.next timeout e).putAway = false) :
    s.putAway = false := by
  by_contra hput
  rw [putAway_next (Bool.eq_true_of_not_eq_false hput)] at h
  cases h

/-- **A message is put away** by an acknowledge, or by an update that comes long enough after the
last press. -/
theorem session_putAway_iff : (session timeout calls).putAway = true ↔
    (∃ t, (t, .acknowledge) ∈ calls) ∨
      ∃ before u after t, calls = before ++ (u, .update) :: after ∧
        (session timeout before).presses.getLast? = some t ∧ t + timeout ≤ u := by
  constructor
  · intro h
    induction calls using List.reverseRecOn with
    | nil => cases h
    | append_singleton calls e ih =>
      by_cases hput : (session timeout calls).putAway = true
      · rcases ih hput with ⟨t, ht⟩ | ⟨before, u, after, t, rfl, hlast, hle⟩
        · exact Or.inl ⟨t, List.mem_append_left _ ht⟩
        · exact Or.inr ⟨before, u, after ++ [e], t, by simp, hlast, hle⟩
      · -- the last call put it away
        obtain ⟨u, call⟩ := e
        rw [session_concat] at h
        cases call with
        | showMessage | nextPage => simp [Session.next, hput] at h
        | acknowledge => exact Or.inl ⟨u, by simp⟩
        | update =>
          rw [Session.next, Bool.or_eq_true, Option.any_eq_true] at h
          obtain ⟨t, hlast, hle⟩ := h.resolve_left hput
          rw [decide_eq_true_eq] at hle
          exact Or.inr ⟨calls, u, [], t, rfl, hlast, hle⟩
  · rintro (⟨t, ht⟩ | ⟨before, u, after, t, rfl, hlast, hle⟩)
    · obtain ⟨before, after, rfl⟩ := List.append_of_mem ht
      rw [session, Machine.run_append]
      exact Session.putAway_run rfl after
    · rw [session, Machine.run_append]
      refine Session.putAway_run ?_ after
      show ((session timeout before).putAway ||
        (session timeout before).presses.getLast?.any (· + timeout ≤ u)) = true
      rw [hlast, Option.any_some, decide_eq_true hle, Bool.or_true]

/-! ### Presses -/

/-- While the message is on display, every press counts. -/
theorem session_presses_eq_nil_iff (h : (session timeout calls).putAway = false) :
    (session timeout calls).presses = [] ↔ ∀ t, (t, .nextPage) ∉ calls := by
  induction calls using List.reverseRecOn with
  | nil => simp
  | append_singleton calls e ih =>
    rw [session_concat] at h
    have hput := Session.not_putAway_of_next h
    obtain ⟨t, call⟩ := e
    rw [session_concat]
    cases call with
    | nextPage =>
      refine iff_of_false (by simp [Session.next, hput]) ?_
      intro hnone
      exact hnone t (List.mem_append_right _ (List.mem_singleton_self _))
    | showMessage | acknowledge | update => simp [Session.next, ih hput]

theorem mem_times_of_mem_presses {t : ℕ} (h : t ∈ (session timeout calls).presses) :
    t ∈ calls.map Prod.fst := by
  induction calls using List.reverseRecOn with
  | nil => cases h
  | append_singleton calls e ih =>
    rw [session_concat] at h
    obtain ⟨u, call⟩ := e
    rw [List.map_append, List.mem_append]
    cases call with
    | nextPage =>
      simp only [Session.next] at h
      split_ifs at h
      · exact Or.inl (ih h)
      · exact (List.mem_append.mp h).imp ih id
    | showMessage | acknowledge | update => exact Or.inl (ih h)

end PresenceDevice
