import Mathlib.Data.List.Basic
import Mathlib.Order.Bounds.Basic
import Mathlib.Data.Nat.Notation

/-!
# Bytes of UTF-8 text

Validity is by construction: a byte list is UTF-8 when it is the encoding of a list of
characters, and an offset is a code-point boundary when it splits the text between two such
encodings. What a program can see is one byte at a time, so the results here say what a single
byte tells about its neighbourhood in valid text.

## Main results

* `Utf8.encodeChar_lead`, `Utf8.encodeChar_cases`: the shapes of an encoded character
* `Utf8.boundary_iff`: boundaries are exactly the offsets with no continuation byte
* `Utf8.boundary_succ_of_ascii`, `Utf8.not_boundary_succ_of_lead`: what a non-continuation byte
  says about the next offset
-/

namespace Utf8

/-- A continuation byte, `10xxxxxx`. -/
def IsContinuation (b : UInt8) : Prop := b &&& 0xC0 = 0x80

instance : DecidablePred IsContinuation := fun _ => inferInstanceAs (Decidable (_ = _))

/-- The UTF-8 encoding of a text. -/
def encode (cs : List Char) : List UInt8 := cs.flatMap String.utf8EncodeChar

/-- Valid UTF-8: the encoding of some text. -/
def IsUtf8 (l : List UInt8) : Prop := ∃ cs, l = encode cs

/-- The offset `k` falls between two characters of `l`. -/
def Boundary (l : List UInt8) (k : ℕ) : Prop :=
  ∃ cs₁ cs₂, l = encode cs₁ ++ encode cs₂ ∧ (encode cs₁).length = k

@[simp] theorem encode_nil : encode [] = [] := rfl

@[simp] theorem encode_cons (c : Char) (cs : List Char) :
    encode (c :: cs) = String.utf8EncodeChar c ++ encode cs := rfl

/-! ### One byte -/

theorem isContinuation_iff (b : UInt8) : IsContinuation b ↔ 0x80 ≤ b.toNat ∧ b.toNat < 0xC0 := by
  have h : ∀ v : BitVec 8, v &&& 0xC0 = 0x80 ↔ 0x80 ≤ v.toNat ∧ v.toNat < 0xC0 := by decide
  rw [IsContinuation, ← UInt8.toBitVec_inj]
  exact h b.toBitVec

/-- The lead byte of a character of `n` bytes. -/
def IsLead (b : UInt8) : ℕ → Prop
  | 1 => b &&& 0x80 = 0
  | 2 => b &&& 0xE0 = 0xC0
  | 3 => b &&& 0xF0 = 0xE0
  | 4 => b &&& 0xF8 = 0xF0
  | _ => False

/-- **The lead byte tells the length**, and continuation bytes follow it. -/
theorem encodeChar_lead (c : Char) : ∃ a tail, String.utf8EncodeChar c = a :: tail ∧
    IsLead a (tail.length + 1) ∧ ∀ b ∈ tail, IsContinuation b := by
  have hcont : ∀ v : ℕ, IsContinuation (UInt8.ofNat (v % 64 + 128)) := by
    intro v
    rw [isContinuation_iff, UInt8.toNat_ofNat']
    omega
  simp only [String.utf8EncodeChar]
  split_ifs with h1 h2 h3
  · refine ⟨_, _, rfl, ?_, by simp⟩
    have hlead : ∀ v < 128, UInt8.ofNat v &&& 0x80 = 0 := by decide
    exact hlead _ (by omega)
  · refine ⟨_, _, rfl, ?_, by simp only [List.mem_cons, List.not_mem_nil, or_false,
      forall_eq, hcont]⟩
    have hlead : ∀ v < 32, UInt8.ofNat (v + 192) &&& 0xE0 = 0xC0 := by decide
    exact hlead _ (Nat.mod_lt _ (by decide))
  · refine ⟨_, _, rfl, ?_, by simp only [List.mem_cons, List.not_mem_nil, or_false,
      forall_eq_or_imp, forall_eq, hcont, and_self]⟩
    have hlead : ∀ v < 16, UInt8.ofNat (v + 224) &&& 0xF0 = 0xE0 := by decide
    exact hlead _ (Nat.mod_lt _ (by decide))
  · refine ⟨_, _, rfl, ?_, by simp only [List.mem_cons, List.not_mem_nil, or_false,
      forall_eq_or_imp, forall_eq, hcont, and_self]⟩
    have hlead : ∀ v < 8, UInt8.ofNat (v + 240) &&& 0xF8 = 0xF0 := by decide
    exact hlead _ (Nat.mod_lt _ (by decide))

theorem isLead_one_iff (b : UInt8) : IsLead b 1 ↔ b.toNat < 0x80 := by
  have h : ∀ v : BitVec 8, v &&& 0x80 = 0 ↔ v.toNat < 0x80 := by decide
  rw [IsLead, ← UInt8.toBitVec_inj]
  exact h b.toBitVec

theorem isLead_two_iff (b : UInt8) : IsLead b 2 ↔ 0xC0 ≤ b.toNat ∧ b.toNat < 0xE0 := by
  have h : ∀ v : BitVec 8, v &&& 0xE0 = 0xC0 ↔ 0xC0 ≤ v.toNat ∧ v.toNat < 0xE0 := by decide
  rw [IsLead, ← UInt8.toBitVec_inj]
  exact h b.toBitVec

theorem isLead_three_iff (b : UInt8) : IsLead b 3 ↔ 0xE0 ≤ b.toNat ∧ b.toNat < 0xF0 := by
  have h : ∀ v : BitVec 8, v &&& 0xF0 = 0xE0 ↔ 0xE0 ≤ v.toNat ∧ v.toNat < 0xF0 := by decide
  rw [IsLead, ← UInt8.toBitVec_inj]
  exact h b.toBitVec

theorem isLead_four_iff (b : UInt8) : IsLead b 4 ↔ 0xF0 ≤ b.toNat ∧ b.toNat < 0xF8 := by
  have h : ∀ v : BitVec 8, v &&& 0xF8 = 0xF0 ↔ 0xF0 ≤ v.toNat ∧ v.toNat < 0xF8 := by decide
  rw [IsLead, ← UInt8.toBitVec_inj]
  exact h b.toBitVec

/-- A character has at most four bytes. -/
theorem not_isLead_of_gt (b : UInt8) (n : ℕ) : ¬ IsLead b (n + 5) := id

theorem le_toNat_of_isLead {b : UInt8} {n : ℕ} (h : IsLead b (n + 2)) : 0xC0 ≤ b.toNat := by
  rcases n with _ | _ | _ | n
  · exact ((isLead_two_iff b).mp h).1
  · exact Nat.le_trans (by decide) ((isLead_three_iff b).mp h).1
  · exact Nat.le_trans (by decide) ((isLead_four_iff b).mp h).1
  · exact absurd h (not_isLead_of_gt b n)

/-- **The shapes of an encoded character.** One ASCII byte, or a lead byte of at least `0xC0`
followed by one to three continuation bytes. -/
theorem encodeChar_cases (c : Char) :
    (∃ a, String.utf8EncodeChar c = [a] ∧ a.toNat < 0x80) ∨
      ∃ a tail, String.utf8EncodeChar c = a :: tail ∧ 0xC0 ≤ a.toNat ∧ tail ≠ [] ∧
        ∀ b ∈ tail, IsContinuation b := by
  obtain ⟨a, tail, hc, hlead, htail⟩ := encodeChar_lead c
  cases tail with
  | nil => exact Or.inl ⟨a, hc, (isLead_one_iff a).mp hlead⟩
  | cons b tail =>
    exact Or.inr ⟨a, b :: tail, hc, le_toNat_of_isLead hlead, by simp, htail⟩

/-- Text never starts with a continuation byte. -/
theorem not_isContinuation_head {cs : List Char} {b : UInt8} (h : (encode cs)[0]? = some b) :
    ¬ IsContinuation b := by
  cases cs with
  | nil => simp at h
  | cons c cs =>
    rw [isContinuation_iff]
    rcases encodeChar_cases c with ⟨a, hc, ha⟩ | ⟨a, tail, hc, ha, -⟩
    all_goals
      simp only [encode_cons, hc, List.cons_append, List.getElem?_cons_zero,
        Option.some.injEq] at h
      subst h
      omega

/-! ### Boundaries -/

theorem Boundary.le_length {l : List UInt8} {k : ℕ} (h : Boundary l k) : k ≤ l.length := by
  obtain ⟨cs₁, cs₂, rfl, rfl⟩ := h
  simp

theorem Boundary.isUtf8_take {l : List UInt8} {k : ℕ} (h : Boundary l k) :
    IsUtf8 (l.take k) := by
  obtain ⟨cs₁, cs₂, rfl, rfl⟩ := h
  exact ⟨cs₁, by simp⟩

theorem Boundary.isUtf8 {l : List UInt8} {k : ℕ} (h : Boundary l k) : IsUtf8 l := by
  obtain ⟨cs₁, cs₂, rfl, -⟩ := h
  exact ⟨cs₁ ++ cs₂, by simp [encode]⟩

theorem boundary_zero {l : List UInt8} (h : IsUtf8 l) : Boundary l 0 := by
  obtain ⟨cs, rfl⟩ := h
  exact ⟨[], cs, by simp, rfl⟩

/-- A boundary of the rest is a boundary of the text, one character further. -/
theorem boundary_encode_cons {c : Char} {cs : List Char} {k : ℕ} (h : Boundary (encode cs) k) :
    Boundary (encode (c :: cs)) ((String.utf8EncodeChar c).length + k) := by
  obtain ⟨cs₁, cs₂, hcs, rfl⟩ := h
  exact ⟨c :: cs₁, cs₂, by simp [hcs], by simp⟩

/-- Inside an encoded character, past its first byte, every byte is a continuation byte. -/
theorem isContinuation_of_lt_encodeChar {c : Char} {k : ℕ} (hk : 0 < k)
    (hlt : k < (String.utf8EncodeChar c).length) :
    IsContinuation (String.utf8EncodeChar c)[k] := by
  rcases encodeChar_cases c with ⟨a, hc, -⟩ | ⟨a, tail, hc, -, -, htail⟩
  · rw [hc] at hlt
    simp only [List.length_singleton] at hlt
    omega
  · obtain ⟨j, rfl⟩ := Nat.exists_eq_succ_of_ne_zero hk.ne'
    simp only [hc, Nat.succ_eq_add_one, List.getElem_cons_succ]
    exact htail _ (List.getElem_mem _)

/-- Only the first byte of a character is no continuation byte. -/
theorem eq_zero_of_not_isContinuation {c : Char} {k : ℕ} {b : UInt8}
    (hb : (String.utf8EncodeChar c)[k]? = some b) (hcont : ¬ IsContinuation b) : k = 0 := by
  obtain ⟨hlt, rfl⟩ := List.getElem?_eq_some_iff.mp hb
  by_contra hk
  exact hcont (isContinuation_of_lt_encodeChar (Nat.pos_of_ne_zero hk) hlt)

/-- A byte of a text is one of its first character, or one of the others. -/
theorem getElem?_encode_cons_cases {c : Char} {cs : List Char} {k : ℕ} {b : UInt8}
    (hb : (encode (c :: cs))[k]? = some b) :
    (String.utf8EncodeChar c)[k]? = some b ∨
      ∃ j, k = (String.utf8EncodeChar c).length + j ∧ (encode cs)[j]? = some b := by
  rw [encode_cons] at hb
  rcases Nat.lt_or_ge k (String.utf8EncodeChar c).length with hlt | hge
  · rw [List.getElem?_append_left hlt] at hb
    exact Or.inl hb
  · obtain ⟨j, rfl⟩ := Nat.exists_eq_add_of_le hge
    rw [List.getElem?_append_right (Nat.le_add_right _ _), Nat.add_sub_cancel_left] at hb
    exact Or.inr ⟨j, rfl, hb⟩

/-- **Boundaries are visible locally.** In valid text an offset is a code-point boundary exactly
when no continuation byte stands there. -/
theorem boundary_iff {l : List UInt8} (hl : IsUtf8 l) {k : ℕ} :
    Boundary l k ↔ k ≤ l.length ∧ ∀ b, l[k]? = some b → ¬ IsContinuation b := by
  constructor
  · rintro ⟨cs₁, cs₂, rfl, rfl⟩
    refine ⟨by simp, ?_⟩
    intro b hb
    rw [List.getElem?_append_right (Nat.le_refl _), Nat.sub_self] at hb
    exact not_isContinuation_head hb
  · obtain ⟨cs, rfl⟩ := hl
    rintro ⟨hle, hk⟩
    -- peel characters off the front until `k` is reached
    induction cs generalizing k with
    | nil =>
      obtain rfl : k = 0 := by simpa using hle
      exact boundary_zero ⟨[], rfl⟩
    | cons c cs ih =>
      rcases Nat.eq_zero_or_pos k with rfl | hpos
      · exact boundary_zero ⟨c :: cs, rfl⟩
      rcases Nat.lt_or_ge k (String.utf8EncodeChar c).length with hlt | hge
      · refine absurd (isContinuation_of_lt_encodeChar hpos hlt) (hk _ ?_)
        rw [encode_cons, List.getElem?_append_left hlt, List.getElem?_eq_getElem hlt]
      · obtain ⟨j, rfl⟩ := Nat.exists_eq_add_of_le hge
        refine boundary_encode_cons (ih (by simpa using hle) fun b hb => hk b ?_)
        rwa [encode_cons, List.getElem?_append_right (Nat.le_add_right _ _),
          Nat.add_sub_cancel_left]

/-- The offset after an ASCII byte is a boundary. -/
theorem boundary_succ_of_ascii {l : List UInt8} (hl : IsUtf8 l) {k : ℕ} {b : UInt8}
    (hb : l[k]? = some b) (hascii : b.toNat < 0x80) : Boundary l (k + 1) := by
  obtain ⟨cs, rfl⟩ := hl
  induction cs generalizing k with
  | nil => simp at hb
  | cons c cs ih =>
    rcases getElem?_encode_cons_cases hb with hb | ⟨j, rfl, hj⟩
    · -- the byte belongs to the first character, which therefore is that byte alone
      have hcont : ¬ IsContinuation b := fun h => by
        have := (isContinuation_iff b).mp h
        omega
      obtain rfl := eq_zero_of_not_isContinuation hb hcont
      rcases encodeChar_cases c with ⟨a, hc, -⟩ | ⟨a, tail, hc, ha, -⟩
      · simpa [hc] using boundary_encode_cons (c := c) (boundary_zero ⟨cs, rfl⟩)
      · rw [hc, List.getElem?_cons_zero, Option.some.injEq] at hb
        subst hb
        omega
    · exact boundary_encode_cons (ih hj)

/-- What lies between two boundaries is text. -/
theorem isUtf8_between {l : List UInt8} {a b : ℕ} (ha : Boundary l a) (hb : Boundary l b) :
    IsUtf8 ((l.drop a).take (b - a)) := by
  have hl : IsUtf8 l := ha.isUtf8
  have hbyte := (boundary_iff hl).mp hb
  obtain ⟨cs₁, cs₂, rfl, rfl⟩ := ha
  rw [List.drop_left]
  rcases Nat.le_total b (encode cs₁).length with hle | hle
  · rw [Nat.sub_eq_zero_of_le hle, List.take_zero]
    exact ⟨[], rfl⟩
  · apply Boundary.isUtf8_take
    obtain ⟨j, rfl⟩ := Nat.exists_eq_add_of_le hle
    rw [List.length_append, List.getElem?_append_right (Nat.le_add_right _ _),
      Nat.add_sub_cancel_left] at hbyte
    rw [Nat.add_sub_cancel_left, boundary_iff ⟨cs₂, rfl⟩]
    exact ⟨by omega, hbyte.2⟩

/-- The offset after a lead byte is never a boundary: a continuation byte follows. -/
theorem not_boundary_succ_of_lead {l : List UInt8} (hl : IsUtf8 l) {k : ℕ} {b : UInt8}
    (hb : l[k]? = some b) (hlead : 0xC0 ≤ b.toNat) : ¬ Boundary l (k + 1) := by
  suffices h : ∃ b', l[k + 1]? = some b' ∧ IsContinuation b' by
    obtain ⟨b', hb', hcont⟩ := h
    exact fun hbd => ((boundary_iff hl).mp hbd).2 b' hb' hcont
  obtain ⟨cs, rfl⟩ := hl
  induction cs generalizing k with
  | nil => simp at hb
  | cons c cs ih =>
    rcases getElem?_encode_cons_cases hb with hb | ⟨j, rfl, hj⟩
    · have hcont : ¬ IsContinuation b := fun h => by
        have := (isContinuation_iff b).mp h
        omega
      obtain rfl := eq_zero_of_not_isContinuation hb hcont
      rcases encodeChar_cases c with ⟨a, hc, ha⟩ | ⟨a, tail, hc, -, hne, htail⟩
      · rw [hc, List.getElem?_cons_zero, Option.some.injEq] at hb
        subst hb
        omega
      · obtain ⟨b', tail', rfl⟩ := List.exists_cons_of_ne_nil hne
        exact ⟨b', by simp [hc], htail b' (List.mem_cons_self ..)⟩
    · obtain ⟨b', hb', hcont⟩ := ih hj
      refine ⟨b', ?_, hcont⟩
      rwa [encode_cons, Nat.add_assoc, List.getElem?_append_right (Nat.le_add_right _ _),
        Nat.add_sub_cancel_left]

end Utf8
