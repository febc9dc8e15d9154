import Mathlib.Data.List.Basic
import Mathlib.Logic.Function.Basic

/-!
# Arrays written in a loop

An array is a function on its indices, and a loop that writes it is a fold of `Function.update`.
When no index is written twice, the loop is a simultaneous update: a written entry has its value,
and every other entry is unchanged.
-/

namespace Writes

variable {α ι β : Type*} [DecidableEq ι] {position : α → ι} {value : α → β}

/-- An entry that is not written is unchanged. -/
theorem foldl_update_of_ne {i : ι} {l : List α} (h : ∀ a ∈ l, position a ≠ i) (array : ι → β) :
    l.foldl (fun array a => Function.update array (position a) (value a)) array i = array i := by
  induction l generalizing array with
  | nil => rfl
  | cons a l ih =>
    rw [List.foldl_cons, ih fun b hb => h b (List.mem_cons_of_mem a hb)]
    exact Function.update_of_ne (h a (List.mem_cons_self ..)).symm _ _

/-- An entry that is written has its value, if the loop writes each position once. -/
theorem foldl_update_of_mem {a : α} {l : List α} (hinj : Function.Injective position) (h : a ∈ l)
    (hl : l.Nodup) (array : ι → β) :
    l.foldl (fun array a => Function.update array (position a) (value a)) array (position a)
      = value a := by
  induction l generalizing array with
  | nil => cases h
  | cons b l ih =>
    obtain ⟨hb, hl⟩ := List.nodup_cons.mp hl
    rw [List.foldl_cons]
    rcases List.mem_cons.mp h with rfl | h
    · have hne : ∀ c ∈ l, position c ≠ position a := by
        rintro c hc heq
        exact hb (hinj heq ▸ hc)
      rw [foldl_update_of_ne hne]
      exact Function.update_self ..
    · exact ih h hl _

end Writes
