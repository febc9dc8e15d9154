import Mathlib.Data.Nat.Basic
import Mathlib.Tactic.Ring

/-!
# Deadlines on a wrapping tick counter

A counter of `w` bits shows a true time `t` as `BitVec.ofNat w t`. Two readings cannot be
compared, but their difference can: read as a signed number it tells which came first, as long
as the true times are less than half a turn apart.

## Main results

* `TickCounter.toInt_sub_nonneg_iff`: the signed difference decides "not before"
* `TickCounter.ofNat_add_eq`: a deadline computed on the counter is the reading of the true one
-/

namespace TickCounter

variable {w : ℕ}

/-- Adding a delay on the counter is adding it to the true time. -/
theorem ofNat_add_eq (t : ℕ) (d : BitVec w) :
    BitVec.ofNat w t + d = BitVec.ofNat w (t + d.toNat) := by
  apply BitVec.eq_of_toNat_eq
  simp [BitVec.toNat_add, BitVec.toNat_ofNat, Nat.add_mod]

/-- The difference of two readings, as a number of ticks, when the first is the later one. -/
theorem toNat_sub_of_le {u d : ℕ} (h : d ≤ u) (hlt : u - d < 2 ^ w) :
    (BitVec.ofNat w u - BitVec.ofNat w d).toNat = u - d := by
  have hd : BitVec.ofNat w d + BitVec.ofNat w (u - d) = BitVec.ofNat w u := by
    rw [← BitVec.ofNat_add]
    congr 1
    omega
  have hsub : BitVec.ofNat w u - BitVec.ofNat w d = BitVec.ofNat w (u - d) := by
    rw [← hd, BitVec.add_comm, BitVec.add_sub_cancel]
  rw [hsub, BitVec.toNat_ofNat, Nat.mod_eq_of_lt hlt]

/-- **Deadline test.** Less than half a turn apart, the signed difference of two readings is
nonnegative exactly when the first was taken no earlier than the second. -/
theorem toInt_sub_nonneg_iff {u d : ℕ} (hu : 2 * (u - d) < 2 ^ w) (hd : 2 * (d - u) < 2 ^ w) :
    0 ≤ (BitVec.ofNat w u - BitVec.ofNat w d).toInt ↔ d ≤ u := by
  rw [BitVec.toInt_pos_iff]
  rcases Nat.lt_or_ge u d with hlt | hle
  · -- the difference wraps around: it is the complement of a small positive one
    have hpos := toNat_sub_of_le (w := w) (Nat.le_of_lt hlt) (by omega)
    have hneg : (BitVec.ofNat w u - BitVec.ofNat w d).toNat = 2 ^ w - (d - u) := by
      rw [show BitVec.ofNat w u - BitVec.ofNat w d = -(BitVec.ofNat w d - BitVec.ofNat w u) by
          rw [BitVec.neg_sub, BitVec.add_comm, BitVec.sub_eq_add_neg],
        BitVec.toNat_neg, hpos, Nat.mod_eq_of_lt (by omega)]
    omega
  · rw [toNat_sub_of_le hle (by omega)]
    exact iff_of_true hu hle

end TickCounter
