import Mathlib.Data.List.Induction

/-!
# Runs and traces of a deterministic machine

A machine is a transition function `next : σ → ε → σ` together with an observation
`out : σ → ε → α` of each step. Every list of events is a run, so "any interleaving" is a
quantifier over lists, and a property of all reachable states is one induction on the run,
stated once below in the two forms the proofs need: with the events so far, or with the
observations so far.

## Main definitions

* `Machine.run`: the state after a list of events
* `Machine.trace`: what was observed on the way

## Main results

* `Machine.run_induction`, `Machine.trace_induction`: an invariant that may mention the history
* `Machine.run_invariant`: the special case that does not
-/

namespace Machine

variable {σ ε α : Type*} (next : σ → ε → σ) (out : σ → ε → α)

/-- The state a list of events leads to. -/
def run (s : σ) (es : List ε) : σ := es.foldl next s

/-- The observations made along a list of events, in order. -/
def trace : σ → List ε → List α
  | _, [] => []
  | s, e :: es => out s e :: trace (next s e) es

@[simp] theorem run_nil (s : σ) : run next s [] = s := rfl

@[simp] theorem run_cons (s : σ) (e : ε) (es : List ε) :
    run next s (e :: es) = run next (next s e) es := rfl

@[simp] theorem run_append (s : σ) (es fs : List ε) :
    run next s (es ++ fs) = run next (run next s es) fs := List.foldl_append

@[simp] theorem trace_nil (s : σ) : trace next out s [] = [] := rfl

@[simp] theorem trace_cons (s : σ) (e : ε) (es : List ε) :
    trace next out s (e :: es) = out s e :: trace next out (next s e) es := rfl

@[simp] theorem trace_append (s : σ) (es fs : List ε) :
    trace next out s (es ++ fs) = trace next out s es ++ trace next out (run next s es) fs := by
  induction es generalizing s with
  | nil => rfl
  | cons e es ih => simp [ih]

variable {next out}

/-- Induction along a run, with the events so far in the invariant. -/
theorem run_induction {I : List ε → σ → Prop} {s : σ} (h0 : I [] s)
    (hstep : ∀ es e, I es (run next s es) → I (es ++ [e]) (next (run next s es) e)) :
    ∀ es, I es (run next s es) := by
  intro es
  induction es using List.reverseRecOn with
  | nil => exact h0
  | append_singleton es e ih => simpa using hstep es e ih

/-- Induction along a run, with the observations so far in the invariant. -/
theorem trace_induction {I : List α → σ → Prop} {s : σ} (h0 : I [] s)
    (hstep : ∀ t s' e, I t s' → I (t ++ [out s' e]) (next s' e)) :
    ∀ es, I (trace next out s es) (run next s es) := by
  intro es
  induction es using List.reverseRecOn with
  | nil => exact h0
  | append_singleton es e ih => simpa using hstep _ _ e ih

/-- What every step preserves holds after every run. -/
theorem run_invariant {I : σ → Prop} (hstep : ∀ s e, I s → I (next s e)) {s : σ} (hs : I s)
    (es : List ε) : I (run next s es) :=
  run_induction (I := fun _ => I) hs (fun _ e ih => hstep _ e ih) es

end Machine
