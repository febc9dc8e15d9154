import Mathlib.Data.List.Basic

/-!
# Readers and the texts they read

A reader takes a value off the front of a text and returns what is left. A grammar says which
texts denote a value. `Reads p T F` compares the two in both directions: in front of a rest that
may follow, `p` takes exactly the texts of `T`. The condition `F` on the rest is what a reader
with a longest match needs, such as that of a number, which stops only where no digit follows.

## Main definitions

* `Reader.Reads`: a reader and the texts it reads
* `Reader.sepBy`, `Reader.SepBy`: values with a separator between them

## Main results

* `Reader.Reads.unique`: a grammar with a reader is unambiguous
* `Reader.Reads.bind`, `Reader.reads_sepBy`: one text after the other, and a list of them
-/

namespace Reader

variable {σ α β : Type*} {p : List σ → Option (α × List σ)} {T F : α → List σ → Prop} {a : α}
  {u w r : List σ}

/-- Before a rest that may follow, `p` reads the texts of `T`, and no others. -/
def Reads (p : List σ → Option (α × List σ)) (T F : α → List σ → Prop) : Prop :=
  ∀ a r, F a r → ∀ u, p u = some (a, r) ↔ ∃ w, T a w ∧ u = w ++ r

theorem Reads.apply_append (h : Reads p T F) (hw : T a w) (hr : F a r) :
    p (w ++ r) = some (a, r) :=
  (h a r hr _).mpr ⟨w, hw, rfl⟩

theorem Reads.exists_text (h : Reads p T F) (hr : F a r) (hp : p u = some (a, r)) :
    ∃ w, T a w ∧ u = w ++ r :=
  (h a r hr u).mp hp

/-- **A grammar with a reader is unambiguous**: it is known where a text ends. -/
theorem Reads.unique {a' : α} {w' r' : List σ} (h : Reads p T F) (hw : T a w) (hr : F a r)
    (hw' : T a' w') (hr' : F a' r') (heq : w ++ r = w' ++ r') : a = a' ∧ w = w' ∧ r = r' := by
  have hread := h.apply_append hw hr
  rw [heq, h.apply_append hw' hr'] at hread
  obtain ⟨rfl, rfl⟩ := Prod.mk.inj (Option.some.inj hread)
  exact ⟨rfl, List.append_cancel_right heq, rfl⟩

/-- One reader after the other. What the second one reads may follow the first. -/
theorem Reads.bind {q : α → List σ → Option (β × List σ)} {U : α → β → List σ → Prop}
    {G : β → List σ → Prop} (hp : Reads p T F) (hq : ∀ a, Reads (q a) (U a) G)
    (hF : ∀ a b w r, U a b w → G b r → F a (w ++ r)) :
    Reads (fun u => (p u).bind fun x => q x.1 x.2)
      (fun b w => ∃ a v v', T a v ∧ U a b v' ∧ w = v ++ v') G := by
  intro b r hr u
  rw [Option.bind_eq_some_iff]
  constructor
  · rintro ⟨⟨a, s⟩, hpu, hqs⟩
    obtain ⟨v', hv', rfl⟩ := (hq a).exists_text hr hqs
    obtain ⟨v, hv, rfl⟩ := hp.exists_text (hF a b v' r hv' hr) hpu
    exact ⟨v ++ v', ⟨a, v, v', hv, hv', rfl⟩, (List.append_assoc ..).symm⟩
  · rintro ⟨w, ⟨a, v, v', hv, hv', rfl⟩, rfl⟩
    rw [List.append_assoc]
    exact ⟨(a, v' ++ r), hp.apply_append hv (hF a b v' r hv' hr), (hq a).apply_append hv' hr⟩

/-! ### Lists with separators -/

section SepBy

variable {comma : σ} {as : List α} {G : List σ → Prop}

/-- Texts of `T` with a separator between them. -/
inductive SepBy (T : α → List σ → Prop) (comma : σ) : List α → List σ → Prop
  | single {a : α} {w : List σ} : T a w → SepBy T comma [a] w
  | cons {a : α} {as : List α} {w v : List σ} : T a w → SepBy T comma as v →
      SepBy T comma (a :: as) (w ++ comma :: v)

/-- There are at most as many values as separators, and one more. -/
theorem SepBy.length_le (h : SepBy T comma as w) : as.length ≤ w.length + 1 := by
  induction h with
  | single _ => simp
  | cons _ _ ih =>
    simp only [List.length_cons, List.length_append]
    omega

/-- Every value has a text. -/
theorem SepBy.exists_text (h : SepBy T comma as w) : ∀ a ∈ as, ∃ v, T a v := by
  induction h with
  | single h =>
    intro a ha
    obtain rfl := List.mem_singleton.mp ha
    exact ⟨_, h⟩
  | cons h _ ih => exact List.forall_mem_cons.mpr ⟨⟨_, h⟩, ih⟩

variable [DecidableEq σ]

/-- Values read by `p` for as long as a separator follows, at most `fuel` of them. -/
def sepBy (p : List σ → Option (α × List σ)) (comma : σ) : ℕ → List σ → Option (List α × List σ)
  | 0, _ => none
  | fuel + 1, u =>
    (p u).bind fun x =>
      if x.2.head? = some comma then
        (sepBy p comma fuel x.2.tail).map fun y => (x.1 :: y.1, y.2)
      else some ([x.1], x.2)

theorem sepBy_eq_some_iff (hp : Reads p T F) (hcomma : ∀ a r, F a (comma :: r))
    (hF : ∀ a r, G r → F a r) (hG : ∀ r, G r → r.head? ≠ some comma) {r : List σ} (hr : G r)
    (fuel : ℕ) (as : List α) (u : List σ) :
    sepBy p comma fuel u = some (as, r) ↔
      as.length ≤ fuel ∧ ∃ w, SepBy T comma as w ∧ u = w ++ r := by
  induction fuel generalizing as u with
  | zero =>
    refine iff_of_false nofun ?_
    rintro ⟨hlen, w, hw, -⟩
    cases hw <;> cases hlen
  | succ fuel ih =>
    rw [sepBy, Option.bind_eq_some_iff]
    constructor
    · rintro ⟨⟨a, s⟩, hpu, hs⟩
      split_ifs at hs with hhead
      · obtain ⟨⟨as', s'⟩, hrest, heq⟩ := Option.map_eq_some_iff.mp hs
        obtain ⟨rfl, rfl⟩ := Prod.mk.inj heq
        obtain ⟨hlen, v, hv, htail⟩ := (ih as' s.tail).mp hrest
        have hcons : s = comma :: (v ++ s') := by
          rw [← htail]
          exact (List.cons_head?_tail hhead).symm
        subst hcons
        obtain ⟨w, hw, rfl⟩ := hp.exists_text (hcomma a _) hpu
        exact ⟨Nat.succ_le_succ hlen, w ++ comma :: v, .cons hw hv, by simp⟩
      · obtain ⟨rfl, rfl⟩ := Prod.mk.inj (Option.some.inj hs)
        obtain ⟨w, hw, rfl⟩ := hp.exists_text (hF a s hr) hpu
        exact ⟨by simp, w, .single hw, rfl⟩
    · rintro ⟨hlen, w, hw, rfl⟩
      cases hw with
      | @single a w hw =>
        exact ⟨(a, r), hp.apply_append hw (hF a r hr), if_neg (hG r hr)⟩
      | @cons a as w v hw hv =>
        have hrest := (ih as (v ++ r)).mpr ⟨Nat.le_of_succ_le_succ hlen, v, hv, rfl⟩
        rw [List.append_assoc, List.cons_append]
        refine ⟨(a, comma :: (v ++ r)), hp.apply_append hw (hcomma a _), ?_⟩
        simp [hrest]

/-- **A list of values is read**, when a separator or the end of the list may follow each of
them. -/
theorem reads_sepBy (hp : Reads p T F) (hcomma : ∀ a r, F a (comma :: r))
    (hF : ∀ a r, G r → F a r) (hG : ∀ r, G r → r.head? ≠ some comma) :
    Reads (fun u => sepBy p comma (u.length + 1) u) (SepBy T comma) fun _ => G := by
  intro as r hr u
  rw [sepBy_eq_some_iff hp hcomma hF hG hr]
  refine and_iff_right_of_imp ?_
  rintro ⟨w, hw, rfl⟩
  have hlen : as.length ≤ w.length + 1 := hw.length_le
  simp only [List.length_append]
  omega

end SepBy

end Reader
