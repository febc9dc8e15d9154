import Mathlib.Data.Nat.Notation

/-!
# Loops with an explicit body

A `while` loop is a partial function on its state: the body returns the next state, or `none`
when the guard fails. `Loop.run` iterates it at most `fuel` times, so it is total and evaluates.
What makes it a loop and not a bounded iteration is `run_exits`: under an invariant that a
measure decreases along, any fuel above the measure ends at a state the guard rejects.

## Main results

* `Loop.run_invariant`: what one pass preserves, the whole loop preserves
* `Loop.run_exits`: a decreasing measure bounds the number of passes
* `Loop.run_eq_of_exits`: two amounts of fuel that both suffice agree
* `Loop.log_invariant`: the same for what the passes record on the way
-/

namespace Loop

variable {σ α : Type*} {step : σ → Option σ} {out : σ → σ → List α}

/-- Iterate the loop body until it leaves the loop, `fuel` times at most. -/
def run (step : σ → Option σ) : ℕ → σ → σ
  | 0, s => s
  | fuel + 1, s =>
    match step s with
    | none => s
    | some s' => run step fuel s'

/-- What the passes record on the way: `out s s'` for a pass from `s` to `s'`. -/
def log (step : σ → Option σ) (out : σ → σ → List α) : ℕ → σ → List α
  | 0, _ => []
  | fuel + 1, s =>
    match step s with
    | none => []
    | some s' => out s s' ++ log step out fuel s'

@[simp] theorem run_zero (s : σ) : run step 0 s = s := rfl

theorem run_of_exit {s : σ} (h : step s = none) (fuel : ℕ) : run step fuel s = s := by
  cases fuel with
  | zero => rfl
  | succ fuel => simp only [run, h]

theorem run_succ_of_step {s s' : σ} (h : step s = some s') (fuel : ℕ) :
    run step (fuel + 1) s = run step fuel s' := by
  simp only [run, h]

theorem log_of_exit {s : σ} (h : step s = none) (fuel : ℕ) : log step out fuel s = [] := by
  cases fuel with
  | zero => rfl
  | succ fuel => simp only [log, h]

theorem log_succ_of_step {s s' : σ} (h : step s = some s') (fuel : ℕ) :
    log step out (fuel + 1) s = out s s' ++ log step out fuel s' := by
  simp only [log, h]

/-- What one pass of the body preserves holds wherever the loop stops. -/
theorem run_invariant {I : σ → Prop} (hstep : ∀ s s', I s → step s = some s' → I s') :
    ∀ {s : σ}, I s → ∀ fuel, I (run step fuel s) := by
  intro s hs fuel
  induction fuel generalizing s with
  | zero => exact hs
  | succ fuel ih =>
    cases h : step s with
    | none => rwa [run_of_exit h]
    | some s' =>
      rw [run_succ_of_step h]
      exact ih (hstep s s' hs h)

/-- The same for an invariant that mentions what has been recorded so far. -/
theorem log_invariant {I : List α → σ → Prop}
    (hstep : ∀ acc s s', I acc s → step s = some s' → I (acc ++ out s s') s') :
    ∀ {acc : List α} {s : σ}, I acc s → ∀ fuel,
      I (acc ++ log step out fuel s) (run step fuel s) := by
  intro acc s hs fuel
  induction fuel generalizing acc s with
  | zero => simpa [log] using hs
  | succ fuel ih =>
    cases h : step s with
    | none => rwa [run_of_exit h, log_of_exit h, List.append_nil]
    | some s' =>
      rw [run_succ_of_step h, log_succ_of_step h, ← List.append_assoc]
      exact ih (hstep acc s s' hs h)

/-- A measure that every pass decreases bounds the number of passes: with at least that much
fuel the loop stops because its guard fails. -/
theorem run_exits {I : σ → Prop} (μ : σ → ℕ)
    (hstep : ∀ s s', I s → step s = some s' → I s' ∧ μ s' < μ s) :
    ∀ {s : σ}, I s → ∀ {fuel}, μ s ≤ fuel → step (run step fuel s) = none := by
  intro s hs fuel hfuel
  induction fuel generalizing s with
  | zero =>
    cases h : step s with
    | none => simpa using h
    | some s' =>
      have := (hstep s s' hs h).2
      omega
  | succ fuel ih =>
    cases h : step s with
    | none => rwa [run_of_exit h]
    | some s' =>
      obtain ⟨hs', hμ⟩ := hstep s s' hs h
      rw [run_succ_of_step h]
      exact ih hs' (by omega)

/-- Once some fuel suffices, more fuel changes nothing. -/
theorem run_eq_of_exits {s : σ} {fuel fuel' : ℕ} (h : step (run step fuel s) = none)
    (hle : fuel ≤ fuel') : run step fuel' s = run step fuel s := by
  induction fuel generalizing s fuel' with
  | zero => exact run_of_exit h fuel'
  | succ fuel ih =>
    obtain ⟨fuel', rfl⟩ : ∃ m, fuel' = m + 1 := ⟨fuel' - 1, by omega⟩
    cases hs : step s with
    | none => rw [run_of_exit hs, run_of_exit hs]
    | some s' =>
      rw [run_succ_of_step hs] at h
      rw [run_succ_of_step hs, run_succ_of_step hs]
      exact ih h (by omega)

end Loop
