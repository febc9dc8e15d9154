import Mathlib.Order.Bounds.Basic
import PresenceDevice.Library.Utf8
import PresenceDevice.Presence

/-!
# Bounded copies

`copy_bounded` stores a prefix of its source, whose length `utf8_safe_prefix` chooses: the bytes
that fit, less any continuation bytes at their end. The result is a C string whatever the array
held before.

The prefix is meant to be the longest one that does not cut a character. The trimming loop does
not look at the lead byte in front of the continuation bytes it drops, so a character that ends
where the prefix does is taken for one that was cut, and its lead byte stays behind.

## Main definitions

* `storedString`: the string a bounded copy leaves in its array
* `StoresLongestPrefix`: what the copy is meant to do

## Main results

* `ofBuffer_copyBounded`: the array holds `storedString`
* `copyBounded_storesLongestPrefix_iff`: it is the longest whole prefix exactly when the last byte
  that fits is ASCII
* `not_storesLongestPrefix_accent`: a source that fits and is stored damaged
-/

namespace PresenceDevice

open Utf8

variable {s : CString} {c : ℕ} {destination : List UInt8}

/-! ### The length of the prefix -/

theorem utf8SafePrefixLoop_le (text : CString) (length : ℕ) :
    utf8SafePrefixLoop text length ≤ length := by
  induction length with
  | zero => exact Nat.le_refl 0
  | succ length ih =>
    rw [utf8SafePrefixLoop]
    split_ifs
    · exact Nat.le_succ_of_le ih
    · exact Nat.le_refl _

/-- The loop drops continuation bytes only. -/
theorem isContinuation_of_utf8SafePrefixLoop_le {text : CString} {length i : ℕ}
    (hi : utf8SafePrefixLoop text length ≤ i) (hlt : i < length) :
    IsContinuation (text.charAt i) := by
  induction length with
  | zero => omega
  | succ length ih =>
    rw [utf8SafePrefixLoop] at hi
    split_ifs at hi with hcont
    · rcases Nat.lt_succ_iff_lt_or_eq.mp hlt with hlt | rfl
      · exact ih hi hlt
      · exact hcont
    · omega

/-- It keeps a length whose last byte is not a continuation byte. -/
theorem utf8SafePrefixLoop_succ_of_not {text : CString} {length : ℕ}
    (h : ¬ IsContinuation (text.charAt length)) :
    utf8SafePrefixLoop text (length + 1) = length + 1 := by
  rw [utf8SafePrefixLoop]
  exact if_neg h

theorem utf8SafePrefix_le_strlen (text : CString) (maxBytes : ℕ) :
    utf8SafePrefix text maxBytes ≤ text.strlen :=
  (utf8SafePrefixLoop_le _ _).trans (Nat.min_le_left _ _)

theorem utf8SafePrefix_le (text : CString) (maxBytes : ℕ) :
    utf8SafePrefix text maxBytes ≤ maxBytes :=
  (utf8SafePrefixLoop_le _ _).trans (Nat.min_le_right _ _)

/-! ### The array after the copy -/

/-- The string that a bounded copy into an array of `c` bytes leaves there. -/
def storedString (c : ℕ) : Option CString → CString
  | none => default
  | some s => s.take (utf8SafePrefix s (c - 1))

theorem storedString_strlen_le (c : ℕ) (source : Option CString) :
    (storedString c source).strlen ≤ c - 1 := by
  cases source with
  | none => exact Nat.zero_le _
  | some s =>
    rw [storedString, CString.strlen_take]
    exact (Nat.min_le_left _ _).trans (utf8SafePrefix_le s _)

theorem copyBounded_some (hc : 0 < c) (hdst : c ≤ destination.length) :
    copyBounded destination c (some s) =
      (storedString c (some s)).bytes ++ 0 :: destination.drop (utf8SafePrefix s (c - 1) + 1) := by
  have hn := utf8SafePrefix_le s (c - 1)
  have hlen : (s.bytes.take (utf8SafePrefix s (c - 1))).length = utf8SafePrefix s (c - 1) :=
    List.length_take_of_le (utf8SafePrefix_le_strlen s _)
  have hdrop : destination.drop (utf8SafePrefix s (c - 1)) =
      destination.get ⟨utf8SafePrefix s (c - 1), by omega⟩ ::
        destination.drop (utf8SafePrefix s (c - 1) + 1) := List.drop_eq_getElem_cons (by omega)
  simp only [copyBounded, if_neg (Nat.pos_iff_ne_zero.mp hc), memcpy, storedString, CString.take]
  rw [hdrop, List.set_append_right _ _ hlen.le, hlen, Nat.sub_self, List.set_cons_zero]

theorem length_copyBounded (source : Option CString) (hc : 0 < c)
    (hdst : c ≤ destination.length) :
    (copyBounded destination c source).length = destination.length := by
  cases source with
  | none => rw [copyBounded, if_pos hc, List.length_set]
  | some s =>
    have hn := utf8SafePrefix_le s (c - 1)
    rw [copyBounded_some hc hdst, storedString, CString.take, List.length_append,
      List.length_take_of_le (utf8SafePrefix_le_strlen s _), List.length_cons, List.length_drop]
    omega

/-- **The array holds the stored string**, whatever it held before. -/
theorem ofBuffer_copyBounded (source : Option CString) (hc : 0 < c)
    (hdst : c ≤ destination.length) :
    CString.ofBuffer (copyBounded destination c source) = storedString c source := by
  cases source with
  | none =>
    obtain ⟨b, rest, rfl⟩ : ∃ b rest, destination = b :: rest :=
      List.exists_cons_of_ne_nil (by rintro rfl; simp at hdst; omega)
    rw [copyBounded, if_pos hc, List.set_cons_zero]
    exact CString.ofBuffer_zero_cons rest
  | some s => rw [copyBounded_some hc hdst, CString.ofBuffer_append_nul]

/-! ### The longest whole prefix -/

/-- The array holds the longest prefix of `s` with at most `c - 1` bytes that ends on a code-point
boundary, and the NUL. -/
structure StoresLongestPrefix (s : CString) (c : ℕ) (destination : List UInt8) : Prop where
  longest : ∃ k, IsGreatest {k | k ≤ c - 1 ∧ Boundary s.bytes k} k ∧
    destination.take (k + 1) = s.bytes.take k ++ [0]
  valid : IsUtf8 (CString.ofBuffer destination).bytes
  whole : s.strlen ≤ c - 1 → CString.ofBuffer destination = s

/-- An array that starts with a prefix and its NUL holds that prefix. -/
theorem ofBuffer_of_take {k : ℕ} (h : destination.take (k + 1) = s.bytes.take k ++ [0]) :
    CString.ofBuffer destination = s.take k := by
  rw [← List.take_append_drop (k + 1) destination, h, List.append_assoc, List.singleton_append]
  exact CString.ofBuffer_append_nul (s.take k) _

/-- A boundary at the chosen length makes the stored prefix the longest one. -/
theorem storesLongestPrefix_of_boundary (hc : 0 < c) (hdst : c ≤ destination.length)
    (hlen : utf8SafePrefix s (c - 1) = s.strnlen (c - 1))
    (hbd : Boundary s.bytes (s.strnlen (c - 1))) :
    StoresLongestPrefix s c (copyBounded destination c (some s)) where
  longest := by
    refine ⟨s.strnlen (c - 1), ⟨⟨Nat.min_le_right _ _, hbd⟩, fun k hk => ?_⟩, ?_⟩
    · exact Nat.le_min.mpr ⟨hk.2.le_length, hk.1⟩
    · have htake : (s.bytes.take (s.strnlen (c - 1))).length = s.strnlen (c - 1) :=
        List.length_take_of_le (Nat.min_le_left _ _)
      rw [copyBounded_some hc hdst, storedString, hlen]
      change (s.bytes.take (s.strnlen (c - 1)) ++ 0 :: _).take _ = _
      rw [List.take_append, htake, List.take_of_length_le (by omega), Nat.add_sub_cancel_left]
      rfl
  valid := by
    rw [ofBuffer_copyBounded _ hc hdst, storedString, hlen]
    exact hbd.isUtf8_take
  whole h := by
    rw [ofBuffer_copyBounded _ hc hdst, storedString, hlen, CString.strnlen, Nat.min_eq_left h]
    exact CString.take_of_strlen_le (Nat.le_refl _)

/-! ### When the loop keeps characters whole -/

/-- When the last byte that fits is ASCII the loop drops nothing, and cuts no character. -/
theorem utf8SafePrefix_of_ascii {n : ℕ} (hs : IsUtf8 s.bytes)
    (h : s.strnlen n = 0 ∨ (s.charAt (s.strnlen n - 1)).toNat < 0x80) :
    utf8SafePrefix s n = s.strnlen n ∧ Boundary s.bytes (s.strnlen n) := by
  have hle : s.strnlen n ≤ s.strlen := Nat.min_le_left _ _
  rw [utf8SafePrefix]
  cases hn : s.strnlen n with
  | zero => exact ⟨rfl, boundary_zero hs⟩
  | succ last =>
    have hascii : (s.charAt last).toNat < 0x80 := by
      rcases h with hzero | hascii
      · rw [hn] at hzero
        cases hzero
      · rwa [hn, Nat.succ_sub_one] at hascii
    constructor
    · refine utf8SafePrefixLoop_succ_of_not ?_
      intro hcont
      rw [isContinuation_iff] at hcont
      omega
    · exact boundary_succ_of_ascii hs (CString.getElem?_bytes (by omega)) hascii

/-- When it is a byte of a longer character the loop stops inside a character. -/
theorem not_boundary_utf8SafePrefix {n : ℕ} (hs : IsUtf8 s.bytes) (hpos : s.strnlen n ≠ 0)
    (hbyte : ¬ (s.charAt (s.strnlen n - 1)).toNat < 0x80) :
    ¬ Boundary s.bytes (utf8SafePrefix s n) := by
  have hle : s.strnlen n ≤ s.strlen := Nat.min_le_left _ _
  rw [utf8SafePrefix]
  obtain ⟨last, hlast⟩ := Nat.exists_eq_add_one_of_ne_zero hpos
  rw [hlast, Nat.add_sub_cancel] at hbyte
  rw [hlast] at hle ⊢
  by_cases hcont : IsContinuation (s.charAt last)
  · -- the loop drops a byte, and stops in front of a continuation byte
    intro hbd
    have hdrop : utf8SafePrefixLoop s (last + 1) ≤ last := by
      rw [utf8SafePrefixLoop]
      exact (if_pos hcont).trans_le (utf8SafePrefixLoop_le s last)
    exact ((boundary_iff hs).mp hbd).2 _ (CString.getElem?_bytes (by omega))
      (isContinuation_of_utf8SafePrefixLoop_le (Nat.le_refl _) (by omega))
  · -- the loop keeps a lead byte at the end
    have hlead : 0xC0 ≤ (s.charAt last).toNat := by
      rw [isContinuation_iff] at hcont
      omega
    rw [utf8SafePrefixLoop_succ_of_not hcont]
    exact not_boundary_succ_of_lead hs (CString.getElem?_bytes (by omega)) hlead

/-- **Bounded copies keep characters whole exactly when the last byte that fits is ASCII**, or no
byte fits at all. -/
theorem copyBounded_storesLongestPrefix_iff (s : CString) (hs : IsUtf8 s.bytes) (c : ℕ)
    (hc : 0 < c) (destination : List UInt8) (hdst : c ≤ destination.length) :
    StoresLongestPrefix s c (copyBounded destination c (some s)) ↔
      s.strnlen (c - 1) = 0 ∨ (s.charAt (s.strnlen (c - 1) - 1)).toNat < 0x80 := by
  constructor
  · rintro ⟨⟨k, ⟨⟨-, hbd⟩, -⟩, htake⟩, -, -⟩
    -- the stored prefix is the one the loop chose
    have hk : k = utf8SafePrefix s (c - 1) := by
      have hstr := ofBuffer_of_take htake
      rw [ofBuffer_copyBounded _ hc hdst, storedString] at hstr
      have hlen := congrArg CString.strlen hstr
      rw [CString.strlen_take, CString.strlen_take,
        Nat.min_eq_left (show k ≤ s.strlen from hbd.le_length),
        Nat.min_eq_left (utf8SafePrefix_le_strlen s _)] at hlen
      exact hlen.symm
    by_contra hlast
    obtain ⟨hpos, hbyte⟩ := not_or.mp hlast
    exact not_boundary_utf8SafePrefix hs hpos hbyte (hk ▸ hbd)
  · intro h
    obtain ⟨hlen, hbd⟩ := utf8SafePrefix_of_ascii hs h
    exact storesLongestPrefix_of_boundary hc hdst hlen hbd

/-- A source that is too long for its array. -/
def longSource : CString := .ofString "continuous-integration-agent"

theorem copyBounded_storesLongestPrefix_iff_ascii :
    CString.ofBuffer (copyBounded (List.replicate 22 0) 22 (some longSource)) =
        .ofString "continuous-integratio" ∧
      (StoresLongestPrefix longSource 22 (copyBounded (List.replicate 22 0) 22 (some longSource)) ↔
        longSource.strnlen 21 = 0 ∨
          (longSource.charAt (longSource.strnlen 21 - 1)).toNat < 0x80) := by
  have hutf8 : IsUtf8 longSource.bytes :=
    ⟨"continuous-integration-agent".toList, by decide⟩
  refine ⟨by decide, ?_⟩
  exact copyBounded_storesLongestPrefix_iff longSource hutf8 22 (by decide) (List.replicate 22 0)
    (by decide)

/-- **A title that fits is stored damaged.** Of the two bytes of `é` only the lead byte is kept. -/
theorem not_storesLongestPrefix_accent :
    IsUtf8 (CString.ofString "é").bytes ∧
      ¬ StoresLongestPrefix (.ofString "é") 22
        (copyBounded (List.replicate 22 0) 22 (some (.ofString "é"))) := by
  refine ⟨⟨['é'], by decide⟩, ?_⟩
  intro h
  have hstored := h.whole (by decide)
  have hbyte : CString.ofBuffer (copyBounded (List.replicate 22 0) 22 (some (.ofString "é"))) =
      ⟨[0xC3], by decide⟩ := by decide
  rw [hbyte] at hstored
  exact absurd hstored (by decide)

end PresenceDevice
