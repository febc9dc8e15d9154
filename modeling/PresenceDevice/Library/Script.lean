import Mathlib.Data.List.Basic

/-!
# Programs that make calls

A function that talks to drivers does nothing but make calls, and what it does next depends on
their answers. `Script Call Answer α` is such a program, as a tree: it ends with a result, is
aborted, or makes a call and goes on with the answer. The answers are not up to it, so a property
of a script is a property of all its runs, and a run is a log of calls with their answers.

Most scripts are lists of calls that have to succeed. `straight` runs such a list, and
`runs_straight_iff` says what its runs are: all calls with good answers, or the calls up to the
first bad answer.

## Main definitions

* `Script`, `Script.Runs`, `Script.play`: scripts and their runs
* `Script.Step`, `Script.straight`, `Script.Passed`, `Script.Halted`: calls that have to succeed
* `Script.Keeps`: a script keeps to a protocol

## Main results

* `Script.runs_bind_iff`: one script after the other
* `Script.runs_straight_iff`: the runs of a list of calls
* `Script.Keeps.runs`: what is kept holds of all runs
-/

universe u v w

/-- A program that makes calls: `next` is what it does with the answer. -/
inductive Script (Call : Type u) (Answer : Call → Type v) (α : Type w)
  | done (result : α)
  | abort
  | call (c : Call) (next : Answer c → Script Call Answer α)

namespace Script

variable {Call : Type u} {Answer : Call → Type v} {α β : Type w} {s : Script Call Answer α}
  {f : α → Script Call Answer β} {log : List (Σ c, Answer c)} {out : Option α}

def bind : Script Call Answer α → (α → Script Call Answer β) → Script Call Answer β
  | done a, f => f a
  | abort, _ => abort
  | call c next, f => call c fun x => (next x).bind f

instance : Monad (Script Call Answer) where
  pure := done
  bind := bind

/-- Make one call and return its answer. -/
def perform (c : Call) : Script Call Answer (Answer c) := call c done

theorem bind_done (s : Script Call Answer α) : s.bind done = s := by
  induction s with
  | done | abort => rfl
  | call c next ih => exact congrArg (call c) (funext ih)

theorem bind_bind {γ : Type w} (s : Script Call Answer α) (f : α → Script Call Answer β)
    (g : β → Script Call Answer γ) : (s.bind f).bind g = s.bind fun a => (f a).bind g := by
  induction s with
  | done | abort => rfl
  | call c next ih => exact congrArg (call c) (funext ih)

instance : LawfulMonad (Script Call Answer) :=
  LawfulMonad.mk' _ bind_done (fun _ _ => rfl) bind_bind

/-! ### Runs -/

/-- A run with the answers of `log` and its result, which is `none` if the script was aborted. -/
inductive Runs : Script Call Answer α → List (Σ c, Answer c) → Option α → Prop
  | done {a : α} : Runs (.done a) [] (some a)
  | abort : Runs .abort [] none
  | call {c : Call} {next : Answer c → Script Call Answer α} {log : List (Σ c, Answer c)}
      {out : Option α} (x : Answer c) :
      Runs (next x) log out → Runs (.call c next) (⟨c, x⟩ :: log) out

@[simp] theorem runs_pure_iff {a : α} :
    Runs (pure a : Script Call Answer α) log out ↔ log = [] ∧ out = some a := by
  constructor
  · rintro ⟨⟩
    exact ⟨rfl, rfl⟩
  · rintro ⟨rfl, rfl⟩
    exact .done

@[simp] theorem runs_abort_iff :
    Runs (abort : Script Call Answer α) log out ↔ log = [] ∧ out = none := by
  constructor
  · rintro ⟨⟩
    exact ⟨rfl, rfl⟩
  · rintro ⟨rfl, rfl⟩
    exact .abort

theorem runs_call_iff {c : Call} {next : Answer c → Script Call Answer α} :
    Runs (.call c next) log out ↔ ∃ x rest, log = ⟨c, x⟩ :: rest ∧ Runs (next x) rest out := by
  constructor
  · rintro (_ | _ | ⟨x, h⟩)
    exact ⟨x, _, rfl, h⟩
  · rintro ⟨x, rest, rfl, h⟩
    exact .call x h

/-- **One script after the other**: the second runs when the first has a result. -/
theorem runs_bind_iff {out : Option β} : Runs (s >>= f) log out ↔
    (∃ first a second, log = first ++ second ∧ Runs s first (some a) ∧ Runs (f a) second out) ∨
      (Runs s log none ∧ out = none) := by
  constructor
  · intro h
    induction s generalizing log with
    | done a => exact Or.inl ⟨[], a, log, rfl, .done, h⟩
    | abort =>
      obtain ⟨rfl, rfl⟩ := runs_abort_iff.mp h
      exact Or.inr ⟨.abort, rfl⟩
    | call c next ih =>
      obtain ⟨x, rest, rfl, hrest⟩ := runs_call_iff.mp h
      obtain ⟨first, a, second, rfl, hfirst, hsecond⟩ | ⟨hnone, rfl⟩ := ih x hrest
      · exact Or.inl ⟨_ :: first, a, second, rfl, .call x hfirst, hsecond⟩
      · exact Or.inr ⟨.call x hnone, rfl⟩
  · rintro (⟨first, a, second, rfl, hfirst, hsecond⟩ | ⟨hnone, rfl⟩)
    · generalize hout : some a = result at hfirst
      induction hfirst with
      | done =>
        obtain rfl := Option.some.inj hout
        exact hsecond
      | abort => cases hout
      | call x _ ih => exact .call x (ih hout)
    · generalize hout : (none : Option α) = result at hnone
      induction hnone with
      | done => cases hout
      | abort => exact .abort
      | call x _ ih => exact .call x (ih hout)

/-- The run in an environment that answers by what has been called before. -/
def play (answer : List (Σ c, Answer c) → (c : Call) → Answer c) (past : List (Σ c, Answer c)) :
    Script Call Answer α → List (Σ c, Answer c) × Option α
  | .done a => ([], some a)
  | .abort => ([], none)
  | .call c next =>
    let x := answer past c
    let rest := play answer (past ++ [⟨c, x⟩]) (next x)
    (⟨c, x⟩ :: rest.1, rest.2)

theorem runs_play (answer : List (Σ c, Answer c) → (c : Call) → Answer c)
    (past : List (Σ c, Answer c)) (s : Script Call Answer α) :
    Runs s (play answer past s).1 (play answer past s).2 := by
  induction s generalizing past with
  | done a => exact .done
  | abort => exact .abort
  | call c next ih => exact .call _ (ih _ _)

/-- What the environment has been asked by the first script is part of the past of the second. -/
theorem play_bind (answer : List (Σ c, Answer c) → (c : Call) → Answer c)
    (past : List (Σ c, Answer c)) (s : Script Call Answer α) (f : α → Script Call Answer β) :
    play answer past (s >>= f) =
      (play answer past s).2.elim ((play answer past s).1, none) fun a =>
        ((play answer past s).1 ++ (play answer (past ++ (play answer past s).1) (f a)).1,
          (play answer (past ++ (play answer past s).1) (f a)).2) := by
  induction s generalizing past with
  | done a =>
    show play answer past (f a) = ([] ++ (play answer (past ++ []) (f a)).1,
      (play answer (past ++ []) (f a)).2)
    rw [List.append_nil, List.nil_append]
  | abort => rfl
  | call c next ih =>
    show (_ :: (play answer _ (next _ >>= f)).1, (play answer _ (next _ >>= f)).2) = _
    rw [ih]
    simp only [play]
    cases (play answer (past ++ [⟨c, answer past c⟩]) (next (answer past c))).2 with
    | none => rfl
    | some a =>
      simp only [Option.elim_some, List.cons_append, List.append_assoc, List.nil_append]

/-! ### Calls that have to succeed -/

/-- A call with the answers that let the script go on. -/
structure Step (Call : Type u) (Answer : Call → Type v) where
  call : Call
  good : Answer call → Bool

variable {step : Step Call Answer} {steps more : List (Step Call Answer)}

/-- Make a call; a bad answer aborts the script. -/
def Step.require (step : Step Call Answer) : Script Call Answer PUnit :=
  .call step.call fun x => if step.good x then .done ⟨⟩ else .abort

/-- One required call after the other. -/
def straight : List (Step Call Answer) → Script Call Answer PUnit
  | [] => pure ⟨⟩
  | step :: steps => step.require >>= fun _ => straight steps

theorem straight_append :
    straight (steps ++ more) = straight steps >>= fun _ => straight more := by
  induction steps with
  | nil => rw [List.nil_append, straight, pure_bind]
  | cons step steps ih => simp only [List.cons_append, straight, ih, bind_assoc]

/-- The log has exactly these calls, all with good answers. -/
inductive Passed : List (Step Call Answer) → List (Σ c, Answer c) → Prop
  | nil : Passed [] []
  | cons {step : Step Call Answer} {steps : List (Step Call Answer)} {x : Answer step.call}
      {log : List (Σ c, Answer c)} : step.good x → Passed steps log →
      Passed (step :: steps) (⟨step.call, x⟩ :: log)

/-- The log has the calls up to one with a bad answer, the first and only one. -/
inductive Halted : List (Step Call Answer) → List (Σ c, Answer c) → Prop
  | here {step : Step Call Answer} {steps : List (Step Call Answer)} {x : Answer step.call} :
      ¬ step.good x → Halted (step :: steps) [⟨step.call, x⟩]
  | later {step : Step Call Answer} {steps : List (Step Call Answer)} {x : Answer step.call}
      {log : List (Σ c, Answer c)} : step.good x → Halted steps log →
      Halted (step :: steps) (⟨step.call, x⟩ :: log)

theorem Step.runs_require_iff {out : Option PUnit} : Runs step.require log out ↔
    ∃ x, log = [⟨step.call, x⟩] ∧ out = if step.good x then some ⟨⟩ else none := by
  unfold Step.require
  rw [runs_call_iff]
  constructor
  · rintro ⟨x, rest, rfl, h⟩
    refine ⟨x, ?_⟩
    split_ifs at h ⊢
    · obtain ⟨rfl, rfl⟩ := runs_pure_iff.mp h
      exact ⟨rfl, rfl⟩
    · obtain ⟨rfl, rfl⟩ := runs_abort_iff.mp h
      exact ⟨rfl, rfl⟩
  · rintro ⟨x, rfl, rfl⟩
    refine ⟨x, [], rfl, ?_⟩
    split_ifs
    · exact .done
    · exact .abort

/-- **The runs of a list of required calls**: all of them with good answers, or those up to the
first bad one. -/
theorem runs_straight_iff {out : Option PUnit} : Runs (straight steps) log out ↔
    (Passed steps log ∧ out = some ⟨⟩) ∨ (Halted steps log ∧ out = none) := by
  induction steps generalizing log with
  | nil =>
    rw [straight, runs_pure_iff]
    constructor
    · rintro ⟨rfl, rfl⟩
      exact Or.inl ⟨.nil, rfl⟩
    · rintro (⟨⟨⟩, rfl⟩ | ⟨⟨⟩, -⟩)
      exact ⟨rfl, rfl⟩
  | cons step steps ih =>
    rw [straight, runs_bind_iff]
    constructor
    · rintro (⟨first, a, second, rfl, hfirst, hsecond⟩ | ⟨hnone, rfl⟩)
      · obtain ⟨x, rfl, hx⟩ := step.runs_require_iff.mp hfirst
        split_ifs at hx with hgood
        obtain ⟨h, rfl⟩ | ⟨h, rfl⟩ := ih.mp hsecond
        · exact Or.inl ⟨.cons hgood h, rfl⟩
        · exact Or.inr ⟨.later hgood h, rfl⟩
      · obtain ⟨x, rfl, hx⟩ := step.runs_require_iff.mp hnone
        split_ifs at hx with hgood
        exact Or.inr ⟨.here hgood, rfl⟩
    · rintro (⟨⟨⟩ | ⟨hgood, h⟩, rfl⟩ | ⟨⟨hbad⟩ | ⟨hgood, h⟩, rfl⟩)
      · refine Or.inl ⟨[_], ⟨⟩, _, rfl, step.runs_require_iff.mpr ⟨_, rfl, ?_⟩,
          ih.mpr (Or.inl ⟨h, rfl⟩)⟩
        rw [if_pos hgood]
      · exact Or.inr ⟨step.runs_require_iff.mpr ⟨_, rfl, by rw [if_neg hbad]⟩, rfl⟩
      · refine Or.inl ⟨[_], ⟨⟩, _, rfl, step.runs_require_iff.mpr ⟨_, rfl, ?_⟩,
          ih.mpr (Or.inr ⟨h, rfl⟩)⟩
        rw [if_pos hgood]

theorem Passed.calls (h : Passed steps log) : log.map Sigma.fst = steps.map Step.call := by
  induction h with
  | nil => rfl
  | cons _ _ ih => rw [List.map_cons, List.map_cons, ih]

theorem Halted.calls (h : Halted steps log) : log.map Sigma.fst <+: steps.map Step.call := by
  induction h with
  | here _ => exact ⟨_, rfl⟩
  | later _ _ ih =>
    rw [List.map_cons, List.map_cons]
    exact List.cons_prefix_cons.mpr ⟨rfl, ih⟩

/-- What halts a list of required calls: the answer to one of them, behind good answers. -/
theorem Halted.exists_bad (h : Halted steps log) :
    ∃ done step rest earlier x, steps = done ++ step :: rest ∧ Passed done earlier ∧
      log = earlier ++ [⟨step.call, x⟩] ∧ ¬ step.good x := by
  induction h with
  | @here step steps x hbad => exact ⟨[], step, steps, [], x, rfl, .nil, rfl, hbad⟩
  | @later first steps y log hgood h ih =>
    obtain ⟨done, step, rest, earlier, x, rfl, hpassed, rfl, hbad⟩ := ih
    exact ⟨first :: done, step, rest, ⟨first.call, y⟩ :: earlier, x, rfl, .cons hgood hpassed, rfl,
      hbad⟩

/-- What every good answer has holds of all that has passed. -/
theorem Passed.forall_mem {Q : (Σ c, Answer c) → Prop} (h : Passed steps log)
    (hgood : ∀ step ∈ steps, ∀ x, step.good x → Q ⟨step.call, x⟩) : ∀ entry ∈ log, Q entry := by
  induction h with
  | nil => exact List.forall_mem_nil _
  | @cons step steps x log hx h ih =>
    rw [List.forall_mem_cons]
    exact ⟨hgood step (List.mem_cons_self ..) x hx,
      ih fun step hmem => hgood step (List.mem_cons_of_mem _ hmem)⟩

/-- **No call is made before everything in front of it has succeeded.** -/
theorem Passed.before {earlier later : List (Σ c, Answer c)} {x : Σ c, Answer c}
    (h : Passed steps (earlier ++ x :: later)) :
    ∃ done step rest, steps = done ++ step :: rest ∧ step.call = x.1 ∧ Passed done earlier := by
  induction earlier generalizing steps with
  | nil =>
    obtain _ | @⟨step, steps, -, -, -, -⟩ := h
    exact ⟨[], step, steps, rfl, rfl, .nil⟩
  | cons y earlier ih =>
    obtain _ | @⟨first, steps, z, log, hgood, h⟩ := h
    obtain ⟨done, step, rest, rfl, hcall, hpassed⟩ := ih h
    exact ⟨first :: done, step, rest, rfl, hcall, .cons hgood hpassed⟩

theorem Halted.before {earlier later : List (Σ c, Answer c)} {x : Σ c, Answer c}
    (h : Halted steps (earlier ++ x :: later)) :
    ∃ done step rest, steps = done ++ step :: rest ∧ step.call = x.1 ∧ Passed done earlier := by
  induction earlier generalizing steps with
  | nil =>
    obtain @⟨step, steps, -, -⟩ | @⟨step, steps, -, -, -, -⟩ := h
    · exact ⟨[], step, steps, rfl, rfl, .nil⟩
    · exact ⟨[], step, steps, rfl, rfl, .nil⟩
  | cons y earlier ih =>
    generalize hlog : y :: earlier ++ x :: later = log at h
    cases h with
    | here _ => simp at hlog
    | @later first steps z log hgood h =>
      obtain ⟨rfl, rfl⟩ := List.cons.inj hlog
      obtain ⟨done, step, rest, rfl, hcall, hpassed⟩ := ih h
      exact ⟨first :: done, step, rest, rfl, hcall, .cons hgood hpassed⟩

/-- Lists of required calls run one after the other. -/
theorem Passed.append {log' : List (Σ c, Answer c)} (h : Passed steps log)
    (h' : Passed more log') : Passed (steps ++ more) (log ++ log') := by
  induction h with
  | nil => exact h'
  | cons hgood _ ih => exact .cons hgood ih

theorem Passed.append_halted {log' : List (Σ c, Answer c)} (h : Passed steps log)
    (h' : Halted more log') : Halted (steps ++ more) (log ++ log') := by
  induction h with
  | nil => exact h'
  | cons hgood _ ih => exact .later hgood ih

/-- What has passed has passed in parts. -/
theorem Passed.exists_append (h : Passed (steps ++ more) log) :
    ∃ first second, log = first ++ second ∧ Passed steps first ∧ Passed more second := by
  induction steps generalizing log with
  | nil => exact ⟨[], log, rfl, .nil, h⟩
  | cons step steps ih =>
    obtain _ | ⟨hgood, h⟩ := h
    obtain ⟨first, second, rfl, hfirst, hsecond⟩ := ih h
    exact ⟨_ :: first, second, rfl, .cons hgood hfirst, hsecond⟩

/-- What was halted was halted in the first part, or behind it. -/
theorem Halted.exists_append (h : Halted (steps ++ more) log) : Halted steps log ∨
    ∃ first second, log = first ++ second ∧ Passed steps first ∧ Halted more second := by
  induction steps generalizing log with
  | nil => exact Or.inr ⟨[], log, rfl, .nil, h⟩
  | cons step steps ih =>
    obtain hbad | ⟨hgood, h⟩ := h
    · exact Or.inl (.here hbad)
    · obtain h | ⟨first, second, rfl, hfirst, hsecond⟩ := ih h
      · exact Or.inl (.later hgood h)
      · exact Or.inr ⟨_ :: first, second, rfl, .cons hgood hfirst, hsecond⟩

/-- Lists of required calls in a row are halted in one of them. -/
theorem Halted.exists_flatMap {ι : Type*} {l : List ι} {calls : ι → List (Step Call Answer)}
    (h : Halted (l.flatMap calls) log) : ∃ before i after first second, l = before ++ i :: after ∧
      log = first ++ second ∧ Passed (before.flatMap calls) first ∧ Halted (calls i) second := by
  induction l generalizing log with
  | nil =>
    rw [List.flatMap_nil] at h
    cases h
  | cons j l ih =>
    rw [List.flatMap_cons] at h
    obtain h | ⟨log₁, log₂, rfl, hpassed, h⟩ := h.exists_append
    · exact ⟨[], j, l, [], log, rfl, rfl, .nil, h⟩
    · obtain ⟨before, i, after, first, second, rfl, rfl, hfirst, hsecond⟩ := ih h
      refine ⟨j :: before, i, after, log₁ ++ first, second, rfl, (List.append_assoc ..).symm, ?_,
        hsecond⟩
      rw [List.flatMap_cons]
      exact hpassed.append hfirst

theorem Halted.append_right (h : Halted steps log) (more : List (Step Call Answer)) :
    Halted (steps ++ more) log := by
  induction h with
  | here hbad => exact .here hbad
  | later hgood _ ih => exact .later hgood ih

/-! ### Protocols -/

section Protocol

variable {σ : Type*} {protocol : σ → (Σ c, Answer c) → Option σ} {post : Option α → σ → Prop}
  {x : σ}

/-- Whatever the answers are, the script keeps to a protocol, which allows a call only in some of
its states, and `post` holds of the result and of the state in the end. -/
def Keeps (protocol : σ → (Σ c, Answer c) → Option σ) :
    Script Call Answer α → (Option α → σ → Prop) → σ → Prop
  | .done a, post, x => post (some a) x
  | .abort, post, x => post none x
  | .call c next, post, x =>
    ∀ answer, ∃ x', protocol x ⟨c, answer⟩ = some x' ∧ Keeps protocol (next answer) post x'

@[simp] theorem keeps_pure {a : α} : Keeps protocol (pure a) post x ↔ post (some a) x := Iff.rfl

/-- One script after the other. -/
theorem keeps_bind {post : Option β → σ → Prop} : Keeps protocol (s >>= f) post x ↔
    Keeps protocol s (fun out x' => out.elim (post none x') fun a => Keeps protocol (f a) post x')
      x := by
  induction s generalizing x with
  | done | abort => exact Iff.rfl
  | call c next ih =>
    exact forall_congr' fun answer => exists_congr fun x' => and_congr_right fun _ => ih answer

/-- What holds in the end may be weakened. -/
theorem Keeps.mono {post' : Option α → σ → Prop} (h : Keeps protocol s post x)
    (hpost : ∀ out y, post out y → post' out y) : Keeps protocol s post' x := by
  induction s generalizing x with
  | done | abort => exact hpost _ _ h
  | call c next ih =>
    intro answer
    obtain ⟨x', hx, h⟩ := h answer
    exact ⟨x', hx, ih answer h⟩

/-- **A script that keeps to a protocol has no run that leaves it.** -/
theorem Keeps.runs (h : Keeps protocol s post x) (hrun : Runs s log out) :
    ∃ x', log.foldlM protocol x = some x' ∧ post out x' := by
  induction hrun generalizing x with
  | done => exact ⟨x, rfl, h⟩
  | abort => exact ⟨x, rfl, h⟩
  | call answer _ ih =>
    obtain ⟨x', hx, h⟩ := h answer
    obtain ⟨y, hy, hpost⟩ := ih h
    exact ⟨y, by rw [List.foldlM_cons, hx]; exact hy, hpost⟩

end Protocol

end Script
