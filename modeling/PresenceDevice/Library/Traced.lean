import PresenceDevice.Library.Loop

/-!
# Computations that record what they read

A plain function of an array says what is computed, not which entries were looked at on the way:
`a && b` is the same function whether or not `b` is evaluated. `Traced ι α` is a value together
with the indices that were read for it, so that a condition which stops early really reads less.
`Traced.Within P` says that every index read satisfies `P`; it has one rule for each way of putting
computations together, and one for loops.

A loop runs on fuel. Without enough of it there is no final state, and nothing after the loop runs:
its value is `none`. What has been read up to there is recorded all the same.

## Main results

* `Traced.loop_within`: where each pass reads, the whole loop reads
* `Traced.loop_ended`: a loop that ended did so because its guard failed
* `Traced.loop_value`: erasing the trace gives `Loop.run`
-/

/-- A value, and the indices read to compute it, in order. -/
structure Traced (ι α : Type*) where
  value : α
  trace : List ι

namespace Traced

universe u v

variable {ι : Type v} {α β σ : Type u} {P : ι → Prop}

instance : Monad (Traced ι) where
  pure a := ⟨a, []⟩
  bind m f := ⟨(f m.value).value, m.trace ++ (f m.value).trace⟩

/-- Read one entry of an array. -/
def read (array : ι → β) (i : ι) : Traced ι β := ⟨array i, [i]⟩

/-- Read one entry and test it. -/
def test (array : ι → β) (i : ι) (p : β → Prop) [DecidablePred p] : Traced ι Bool :=
  ⟨p (array i), [i]⟩

/-- Access an entry without a value, such as by writing to it. -/
def touch (i : ι) : Traced ι PUnit := ⟨⟨⟩, [i]⟩

/-- A conjunction that leaves its right-hand side alone when the left-hand side is false. -/
def andThen (a b : Traced ι Bool) : Traced ι Bool := do
  if ← a then b else return false

/-- A disjunction that leaves its right-hand side alone when the left-hand side is true. -/
def orElse (a b : Traced ι Bool) : Traced ι Bool := do
  if ← a then return true else b

/-- Run the body until it leaves the loop; `none` if it has not after `fuel` passes. -/
def loop (step : σ → Traced ι (Option σ)) : ℕ → σ → Traced ι (Option σ)
  | 0, _ => pure none
  | fuel + 1, s => do
    match ← step s with
    | none => return some s
    | some s' => loop step fuel s'

/-! ### Values -/

@[simp] theorem value_pure (a : α) : (pure a : Traced ι α).value = a := rfl

@[simp] theorem value_bind (m : Traced ι α) (f : α → Traced ι β) :
    (m >>= f).value = (f m.value).value := rfl

@[simp] theorem value_read (array : ι → β) (i : ι) : (read array i).value = array i := rfl

-- tried before `value_bind`, so that the instances in `f` are about the entry too
@[simp high] theorem value_read_bind (array : ι → β) (i : ι) (f : β → Traced ι α) :
    (read array i >>= f).value = (f (array i)).value := rfl

@[simp] theorem value_test (array : ι → β) (i : ι) (p : β → Prop) [DecidablePred p] :
    (test array i p).value = decide (p (array i)) := rfl

@[simp] theorem value_ite (p : Prop) [Decidable p] (a b : Traced ι α) :
    (if p then a else b).value = if p then a.value else b.value :=
  apply_ite value p a b

@[simp] theorem value_andThen (a b : Traced ι Bool) :
    (a.andThen b).value = (a.value && b.value) := by
  cases h : a.value <;> simp [andThen, h]

@[simp] theorem value_orElse (a b : Traced ι Bool) :
    (a.orElse b).value = (a.value || b.value) := by
  cases h : a.value <;> simp [orElse, h]

/-! ### Where a computation reads -/

/-- Every index read satisfies `P`. -/
def Within (P : ι → Prop) (m : Traced ι α) : Prop := ∀ i ∈ m.trace, P i

@[simp] theorem within_pure (a : α) : Within P (pure a : Traced ι α) :=
  fun _ h => absurd h List.not_mem_nil

@[simp] theorem within_read {array : ι → β} {i : ι} : Within P (read array i) ↔ P i :=
  List.forall_mem_singleton

@[simp] theorem within_touch {i : ι} : Within P (touch i : Traced ι PUnit.{u + 1}) ↔ P i :=
  List.forall_mem_singleton

@[simp] theorem within_bind {m : Traced ι α} {f : α → Traced ι β} :
    Within P (m >>= f) ↔ Within P m ∧ Within P (f m.value) :=
  List.forall_mem_append

@[simp high] theorem within_read_bind {array : ι → β} {i : ι} {f : β → Traced ι α} :
    Within P (read array i >>= f) ↔ P i ∧ Within P (f (array i)) := by
  rw [within_bind, within_read, value_read]

@[simp] theorem within_test {array : ι → β} {i : ι} {p : β → Prop} [DecidablePred p] :
    Within P (test array i p) ↔ P i :=
  List.forall_mem_singleton

@[simp] theorem within_ite {p : Prop} [Decidable p] {a b : Traced ι α} :
    Within P (if p then a else b) ↔ (p → Within P a) ∧ (¬ p → Within P b) := by
  by_cases h : p <;> simp [h]

@[simp] theorem within_andThen {a b : Traced ι Bool} :
    Within P (a.andThen b) ↔ Within P a ∧ (a.value = true → Within P b) := by
  simp [andThen]

@[simp] theorem within_orElse {a b : Traced ι Bool} :
    Within P (a.orElse b) ↔ Within P a ∧ (a.value = false → Within P b) := by
  simp [orElse]

/-! ### Loops -/

variable {step : σ → Traced ι (Option σ)} {I : σ → Prop}

theorem loop_of_exit {s : σ} (h : (step s).value = none) (fuel : ℕ) :
    (loop step (fuel + 1) s).value = some s := by
  show (match (step s).value with
    | none => pure (some s)
    | some s' => loop step fuel s' : Traced ι (Option σ)).value = some s
  rw [h]
  rfl

theorem loop_of_step {s s' : σ} (h : (step s).value = some s') (fuel : ℕ) :
    (loop step (fuel + 1) s).value = (loop step fuel s').value := by
  show (match (step s).value with
    | none => pure (some s)
    | some s' => loop step fuel s' : Traced ι (Option σ)).value = _
  rw [h]

/-- Where each pass reads, including the last test of the guard, the whole loop reads. -/
theorem loop_within (hread : ∀ s, I s → Within P (step s))
    (hstep : ∀ s s', I s → (step s).value = some s' → I s') {s : σ} (hs : I s) (fuel : ℕ) :
    Within P (loop step fuel s) := by
  induction fuel generalizing s with
  | zero => exact within_pure none
  | succ fuel ih =>
    refine within_bind.mpr ⟨hread s hs, ?_⟩
    cases h : (step s).value with
    | none => exact within_pure (some s)
    | some s' => exact ih (hstep s s' hs h)

/-- A loop that ended did so because its guard failed. -/
theorem loop_ended (hstep : ∀ s s', I s → (step s).value = some s' → I s') {s t : σ} (hs : I s)
    {fuel : ℕ} (h : (loop step fuel s).value = some t) : I t ∧ (step t).value = none := by
  induction fuel generalizing s with
  | zero => cases h
  | succ fuel ih =>
    cases hv : (step s).value with
    | none =>
      rw [loop_of_exit hv] at h
      cases h
      exact ⟨hs, hv⟩
    | some s' =>
      rw [loop_of_step hv] at h
      exact ih (hstep s s' hs hv) h

/-- Erasing the trace gives the loop on plain states, as soon as there is fuel for one more test
of the guard than the plain loop makes passes. -/
theorem loop_value {plain : σ → Option σ} (herase : ∀ s, I s → (step s).value = plain s)
    (hstep : ∀ s s', I s → plain s = some s' → I s') {s : σ} (hs : I s) {n fuel : ℕ}
    (hexit : plain (Loop.run plain n s) = none) (hlt : n < fuel) :
    (loop step fuel s).value = some (Loop.run plain n s) := by
  induction fuel generalizing s n with
  | zero => omega
  | succ fuel ih =>
    have hv := herase s hs
    cases hp : plain s with
    | none =>
      rw [loop_of_exit (hv.trans hp), Loop.run_of_exit hp]
    | some s' =>
      cases n with
      | zero =>
        rw [Loop.run_zero, hp] at hexit
        cases hexit
      | succ n =>
        rw [Loop.run_succ_of_step hp] at hexit ⊢
        rw [loop_of_step (hv.trans hp)]
        exact ih (hstep s s' hs hp) hexit (by omega)

end Traced
