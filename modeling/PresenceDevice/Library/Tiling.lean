import Mathlib.Data.Fintype.Basic
import Mathlib.Data.List.TakeDrop

/-!
# Segments of a list and the gaps between them

A program that cuts a text into pieces reports offsets. `Tiles G p segs q` says that the segments
lie in order between the offsets `p` and `q` and that `G` holds of every gap: the one before the
first segment, those in between and the one after the last. It is built from the left end by
`Tiles.concat` and `Tiles.extend`, which is how such a program produces it, and it gives back the
text (`weave_gaps`) and the place of each element (`Tiles.existsUnique`).

## Main definitions

* `Tiling.slice`: the elements between two offsets
* `Tiling.Tiles`: segments in order, with a condition on the gaps
* `Tiling.gaps`, `Tiling.weave`: the gaps as lists, and gaps and pieces put together again

## Main results

* `Tiling.weave_gaps`: gaps and segments together are the text
* `Tiling.Tiles.existsUnique`: what no gap contains lies in exactly one segment
* `Tiling.filter_weave`: an order-preserving account of what the gaps do not contain
-/

namespace Tiling

variable {α : Type*} {G : ℕ → ℕ → Prop} {p q : ℕ} {segs : List (ℕ × ℕ)}

/-! ### Slices -/

/-- The elements of `l` at the offsets from `a` up to `b`, `b` excluded. -/
def slice (l : List α) (a b : ℕ) : List α := (l.drop a).take (b - a)

theorem slice_append_drop (l : List α) {a b : ℕ} (h : a ≤ b) :
    slice l a b ++ l.drop b = l.drop a := by
  obtain ⟨n, rfl⟩ := Nat.exists_eq_add_of_le h
  rw [slice, Nat.add_sub_cancel_left, ← List.drop_drop, List.take_append_drop]

theorem slice_length_self (l : List α) (a : ℕ) : slice l a l.length = l.drop a := by
  rw [slice, List.take_of_length_le (by simp)]

theorem getElem?_slice {l : List α} {a b i : ℕ} (h : a + i < b) :
    (slice l a b)[i]? = l[a + i]? := by
  rw [slice, List.getElem?_take_of_lt (by omega), List.getElem?_drop]

@[simp] theorem slice_self (l : List α) (a : ℕ) : slice l a a = [] := by simp [slice]

theorem slice_succ {l : List α} {a b : ℕ} {x : α} (h : a ≤ b) (hx : l[b]? = some x) :
    slice l a (b + 1) = slice l a b ++ [x] := by
  obtain ⟨n, rfl⟩ := Nat.exists_eq_add_of_le h
  rw [slice, slice, show a + n + 1 - a = n + 1 by omega, Nat.add_sub_cancel_left,
    List.take_add_one, List.getElem?_drop, hx]
  rfl

/-- The elements of a slice are those at its offsets. -/
theorem mem_slice_iff {l : List α} {a b : ℕ} {x : α} :
    x ∈ slice l a b ↔ ∃ i, a ≤ i ∧ i < b ∧ l[i]? = some x := by
  rw [List.mem_iff_getElem?]
  constructor
  · rintro ⟨i, hi⟩
    have hlt : i < b - a := by
      have := (List.getElem?_eq_some_iff.mp hi).1
      rw [slice, List.length_take] at this
      omega
    exact ⟨a + i, by omega, by omega, (getElem?_slice (by omega)).symm.trans hi⟩
  · rintro ⟨i, ha, hb, hi⟩
    obtain ⟨j, rfl⟩ := Nat.exists_eq_add_of_le ha
    exact ⟨j, by rwa [getElem?_slice hb]⟩

/-! ### Tilings -/

/-- The segments `segs` lie in order between `p` and `q`, and `G` holds of every gap. -/
def Tiles (G : ℕ → ℕ → Prop) : ℕ → List (ℕ × ℕ) → ℕ → Prop
  | p, [], q => p ≤ q ∧ G p q
  | p, s :: segs, q => p ≤ s.1 ∧ G p s.1 ∧ s.1 ≤ s.2 ∧ Tiles G s.2 segs q

theorem Tiles.le (h : Tiles G p segs q) : p ≤ q := by
  induction segs generalizing p with
  | nil => exact h.1
  | cons s segs ih =>
    obtain ⟨hp, -, hs, hrest⟩ := h
    have := ih hrest
    omega

/-- The last gap becomes a gap before a new segment, which a new gap follows. -/
theorem Tiles.concat {a b : ℕ} (h : Tiles G p segs a) (hab : a ≤ b) (hbq : b ≤ q) (hG : G b q) :
    Tiles G p (segs ++ [(a, b)]) q := by
  induction segs generalizing p with
  | nil => exact ⟨h.1, h.2, hab, hbq, hG⟩
  | cons s segs ih =>
    obtain ⟨hp, hgap, hs, hrest⟩ := h
    exact ⟨hp, hgap, hs, ih hrest⟩

/-- Only the last gap grows. -/
theorem Tiles.extend {q' : ℕ} (h : Tiles G p segs q) (hqq : q ≤ q')
    (hG : ∀ a, a ≤ q → G a q → G a q') : Tiles G p segs q' := by
  induction segs generalizing p with
  | nil => exact ⟨Nat.le_trans h.1 hqq, hG p h.1 h.2⟩
  | cons s segs ih =>
    obtain ⟨hp, hgap, hs, hrest⟩ := h
    exact ⟨hp, hgap, hs, ih hrest⟩

theorem Tiles.mem_bounds (h : Tiles G p segs q) {s : ℕ × ℕ} (hs : s ∈ segs) :
    p ≤ s.1 ∧ s.1 ≤ s.2 ∧ s.2 ≤ q := by
  induction segs generalizing p with
  | nil => simp at hs
  | cons t segs ih =>
    obtain ⟨hp, -, ht, hrest⟩ := h
    rcases List.mem_cons.mp hs with rfl | hs
    · exact ⟨hp, ht, hrest.le⟩
    · obtain ⟨h1, h2, h3⟩ := ih hrest hs
      exact ⟨by omega, h2, h3⟩

/-- Every segment ends before any later one starts. -/
theorem Tiles.pairwise (h : Tiles G p segs q) : segs.Pairwise fun s t => s.2 ≤ t.1 := by
  induction segs generalizing p with
  | nil => exact List.Pairwise.nil
  | cons s segs ih =>
    obtain ⟨-, -, -, hrest⟩ := h
    exact List.Pairwise.cons (fun t ht => (hrest.mem_bounds ht).1) (ih hrest)

theorem Tiles.exists_mem (h : Tiles G p segs q) {i : ℕ} (hp : p ≤ i) (hq : i < q)
    (hG : ∀ a b, G a b → a ≤ i → b ≤ i) : ∃ s ∈ segs, s.1 ≤ i ∧ i < s.2 := by
  induction segs generalizing p with
  | nil =>
    have := hG p q h.2 hp
    omega
  | cons s segs ih =>
    obtain ⟨-, hgap, -, hrest⟩ := h
    have hs : s.1 ≤ i := hG p s.1 hgap hp
    rcases Nat.lt_or_ge i s.2 with hlt | hge
    · exact ⟨s, List.mem_cons_self .., hs, hlt⟩
    · obtain ⟨t, ht, hti⟩ := ih hrest hge
      exact ⟨t, List.mem_cons_of_mem _ ht, hti⟩

/-- **Each offset outside the gaps lies in exactly one segment.** -/
theorem Tiles.existsUnique (h : Tiles G p segs q) {i : ℕ} (hp : p ≤ i) (hq : i < q)
    (hG : ∀ a b, G a b → a ≤ i → b ≤ i) :
    ∃! k : Fin segs.length, segs[k].1 ≤ i ∧ i < segs[k].2 := by
  obtain ⟨s, hs, hsi⟩ := h.exists_mem hp hq hG
  obtain ⟨k, hk, rfl⟩ := List.getElem_of_mem hs
  refine ⟨⟨k, hk⟩, hsi, ?_⟩
  rintro ⟨j, hj⟩ ⟨hj1, hj2⟩
  have hpw := List.pairwise_iff_getElem.mp h.pairwise
  rcases Nat.lt_trichotomy j k with hlt | heq | hgt
  · have : segs[j].2 ≤ segs[k].1 := hpw j k hj hk hlt
    simp only [Fin.getElem_fin] at hj1 hj2
    omega
  · exact Fin.ext heq
  · have : segs[k].2 ≤ segs[j].1 := hpw k j hk hj hgt
    simp only [Fin.getElem_fin] at hj1 hj2
    omega

/-! ### Gaps and pieces -/

/-- The gaps that `segs` leave in `l` from offset `p` on. -/
def gaps (l : List α) : ℕ → List (ℕ × ℕ) → List (List α)
  | p, [] => [l.drop p]
  | p, s :: segs => slice l p s.1 :: gaps l s.2 segs

/-- A gap, a piece, a gap, a piece, and so on, up to the last gap. -/
def weave : List (List α) → List (List α) → List α
  | [], _ => []
  | gap :: _, [] => gap
  | gap :: gaps, piece :: pieces => gap ++ (piece ++ weave gaps pieces)

theorem length_gaps (l : List α) : ∀ p segs, (gaps l p segs).length = segs.length + 1
  | _, [] => rfl
  | _, s :: segs => by simp [gaps, length_gaps l s.2 segs]

/-- **Gaps and segments together are the text.** -/
theorem weave_gaps {l : List α} (h : Tiles G p segs q) :
    weave (gaps l p segs) (segs.map fun s => slice l s.1 s.2) = l.drop p := by
  induction segs generalizing p with
  | nil => rfl
  | cons s segs ih =>
    obtain ⟨hp, -, hs, hrest⟩ := h
    rw [gaps, List.map_cons, weave, ih hrest, slice_append_drop l hs, slice_append_drop l hp]

theorem Tiles.mem_gaps {l : List α} (h : Tiles G p segs l.length) {g : List α}
    (hg : g ∈ gaps l p segs) : ∃ a b, b ≤ l.length ∧ G a b ∧ g = slice l a b := by
  induction segs generalizing p with
  | nil =>
    obtain rfl : g = l.drop p := by simpa [gaps] using hg
    exact ⟨p, l.length, Nat.le_refl _, h.2, (slice_length_self l p).symm⟩
  | cons s segs ih =>
    obtain ⟨hp, hgap, hs, hrest⟩ := h
    rcases List.mem_cons.mp hg with rfl | hg
    · exact ⟨p, s.1, Nat.le_trans hs hrest.le, hgap, rfl⟩
    · exact ih hrest hg

/-- What the gaps do not contain is found in the pieces, in the order of the text. -/
theorem filter_weave (f : α → Bool) : ∀ {gaps pieces : List (List α)},
    gaps.length = pieces.length + 1 → (∀ g ∈ gaps, ∀ x ∈ g, f x = false) →
      (weave gaps pieces).filter f = pieces.flatten.filter f
  | [], _, h, _ => by simp at h
  | gap :: _, [], _, hf => by
    simpa [weave, List.filter_eq_nil_iff] using hf gap (List.mem_cons_self ..)
  | gap :: gaps, piece :: pieces, h, hf => by
    have hgap : gap.filter f = [] := by
      simpa [List.filter_eq_nil_iff] using hf gap (List.mem_cons_self ..)
    have hrest := filter_weave f (Nat.succ.inj h) fun g hg => hf g (List.mem_cons_of_mem _ hg)
    simp only [weave, List.filter_append, List.flatten_cons, hgap, hrest, List.nil_append]

end Tiling
