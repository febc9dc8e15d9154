import PresenceDevice.LayoutJoin

/-!
# Lines of UTF-8 text

On valid text `utf8_sequence_length` is exact, so the cursor of the layout moves from boundary to
boundary. Where it jumps back it jumps behind a blank, which is a boundary too. So every line
starts and ends between two characters.

## Main results

* `boundary_sequence`: `utf8_sequence_length` is exact on valid text
* `Emitted.boundaries`: line starts and line ends are boundaries
* `presenceLayoutBody_isUtf8`: every line of valid text is valid text
-/

namespace PresenceDevice

open Relation Utf8

variable {body : CString} {ls : List PresenceLine} {p : ℕ}

/-! ### Sequences of valid text -/

/-- `utf8_sequence_length` reads the length of a character off its lead byte. -/
theorem utf8SequenceLength_of_lead {a : UInt8} {tail rest : List UInt8}
    (h : body.bytes.drop p = a :: tail ++ rest) (hlead : IsLead a (tail.length + 1))
    (htail : ∀ b ∈ tail, IsContinuation b) : utf8SequenceLength body p = tail.length + 1 := by
  have hbyte : ∀ i, body.charAt (p + i) = (a :: tail ++ rest).getD i 0 := by
    intro i
    rw [CString.charAt_add, h]
  have hone := isLead_one_iff a
  have htwo := isLead_two_iff a
  have hthree := isLead_three_iff a
  have hfour := isLead_four_iff a
  simp only [utf8SequenceLength, hbyte]
  rcases tail with _ | ⟨b, _ | ⟨c, _ | ⟨d, _ | ⟨e, tail⟩⟩⟩⟩
  · exact if_pos hlead
  · have hrange := htwo.mp hlead
    rw [if_neg fun h1 => by have := hone.mp h1; omega,
      if_pos ⟨hlead, htail b (by simp)⟩]
    rfl
  · have hrange := hthree.mp hlead
    rw [if_neg fun h1 => by have := hone.mp h1; omega,
      if_neg fun h2 => by have := htwo.mp h2.1; omega,
      if_pos ⟨hlead, htail b (by simp), htail c (by simp)⟩]
    rfl
  · have hrange := hfour.mp hlead
    rw [if_neg fun h1 => by have := hone.mp h1; omega,
      if_neg fun h2 => by have := htwo.mp h2.1; omega,
      if_neg fun h3 => by have := hthree.mp h3.1; omega,
      if_pos ⟨hlead, htail b (by simp), htail c (by simp), htail d (by simp)⟩]
    rfl
  · exact absurd hlead (not_isLead_of_gt a tail.length)

/-- **From a boundary, a sequence leads to the next one.** -/
theorem boundary_sequence (hp : Boundary body.bytes p) (hlt : p < body.strlen) :
    Boundary body.bytes (p + utf8SequenceLength body p) := by
  obtain ⟨cs₁, cs₂, hbytes, hlen⟩ := hp
  cases cs₂ with
  | nil =>
    have htotal := congrArg List.length hbytes
    simp only [encode_nil, List.append_nil] at htotal
    simp only [CString.strlen] at hlt
    omega
  | cons c cs₂ =>
    obtain ⟨a, tail, hc, hlead, htail⟩ := encodeChar_lead c
    have hdrop : body.bytes.drop p = a :: tail ++ encode cs₂ := by
      rw [hbytes, ← hlen, List.drop_left, encode_cons, hc]
    rw [utf8SequenceLength_of_lead hdrop hlead htail]
    refine ⟨cs₁ ++ [c], cs₂, ?_, ?_⟩
    · rw [hbytes]
      simp [encode]
    · rw [← hlen]
      simp [encode, hc]

/-- A byte that is not a continuation byte stands on a boundary. -/
theorem boundary_of_not_isContinuation (hb : IsUtf8 body.bytes) (hle : p ≤ body.strlen)
    (hp : ¬ IsContinuation (body.charAt p)) : Boundary body.bytes p := by
  refine (boundary_iff hb).mpr ⟨hle, ?_⟩
  intro b hbyte
  have hlt : p < body.strlen := (List.getElem?_eq_some_iff.mp hbyte).1
  rw [CString.getElem?_bytes hlt, Option.some.injEq] at hbyte
  exact hbyte ▸ hp

/-- So does the byte behind a blank or a newline. -/
theorem boundary_succ_of_isGap (hb : IsUtf8 body.bytes) (hp : IsGap (body.charAt p)) :
    Boundary body.bytes (p + 1) := by
  have hlt : p < body.strlen := by
    rcases hp with hblank | hnl
    · exact CString.lt_strlen_of_charAt_ne_zero hblank.ne_zero
    · exact lt_strlen_of_newline hnl
  refine boundary_succ_of_ascii hb (CString.getElem?_bytes hlt) ?_
  rcases hp with (hblank | hblank) | hblank <;> rw [hblank] <;> decide

/-! ### Lines of valid text -/

/-- The line starts and ends between two characters. -/
structure OnBoundaries (body : CString) (l : PresenceLine) : Prop where
  start : Boundary body.bytes l.start
  stop : Boundary body.bytes (l.start + l.length)

theorem OnBoundaries.of_offsets {e : ℕ} (hpe : p ≤ e) (hp : Boundary body.bytes p)
    (he : Boundary body.bytes e) : OnBoundaries body ⟨p, e - p⟩ := by
  refine ⟨hp, ?_⟩
  simp only
  rwa [Nat.add_sub_cancel' hpe]

/-- Scanning moves from boundary to boundary. -/
theorem boundary_of_sequenceSteps {e : ℕ} (h : ReflTransGen (SequenceStep body) p e)
    (hp : Boundary body.bytes p) (hle : e ≤ body.strlen) : Boundary body.bytes e := by
  induction h with
  | refl => exact hp
  | @tail e e' _ hstep ih =>
    rw [hstep] at hle ⊢
    have hpos := utf8SequenceLength_pos body e
    exact boundary_sequence (ih (by omega)) (by omega)

/-- **Lines start and end between two characters**, and the next line starts there too. -/
theorem Emitted.boundaries (h : Emitted body ls p) (hb : IsUtf8 body.bytes) :
    (∀ l ∈ ls, OnBoundaries body l) ∧ Boundary body.bytes p := by
  induction h with
  | start => exact ⟨by simp, boundary_zero hb⟩
  | skip _ hblank ih => exact ⟨ih.1, boundary_succ_of_isGap hb (Or.inl hblank)⟩
  | newline _ hs hn ih =>
    refine ⟨?_, boundary_succ_of_isGap hb (Or.inr hn)⟩
    simp only [List.forall_mem_append, List.forall_mem_singleton]
    have hstop := boundary_of_sequenceSteps hs.aligned ih.2 hs.le_strlen
    exact ⟨ih.1, .of_offsets hs.le ih.2 hstop⟩
  | @wrap ls p q b _ hs _ hlast ih =>
    obtain ⟨hpb, hbq, hblank, -⟩ := hlast
    refine ⟨?_, boundary_succ_of_isGap hb (Or.inl hblank)⟩
    simp only [List.forall_mem_append, List.forall_mem_singleton]
    have hle := hs.le_strlen
    have hstop : Boundary body.bytes b :=
      boundary_of_not_isContinuation hb (by omega) hblank.not_isContinuation
    exact ⟨ih.1, .of_offsets (Nat.le_of_lt hpb) ih.2 hstop⟩
  | split _ hs _ _ ih =>
    have hstop := boundary_of_sequenceSteps hs.aligned ih.2 hs.le_strlen
    refine ⟨?_, hstop⟩
    simp only [List.forall_mem_append, List.forall_mem_singleton]
    exact ⟨ih.1, .of_offsets hs.le ih.2 hstop⟩

theorem LaidOut.boundaries (h : LaidOut body ls) (hb : IsUtf8 body.bytes) :
    ∀ l ∈ ls, OnBoundaries body l := by
  cases h with
  | last hls hs _ =>
    simp only [List.forall_mem_append, List.forall_mem_singleton]
    have hstart := (hls.boundaries hb).2
    have hstop := boundary_of_sequenceSteps hs.aligned hstart hs.le_strlen
    exact ⟨(hls.boundaries hb).1, .of_offsets hs.le hstart hstop⟩
  | done hls _ _ => exact (hls.boundaries hb).1

/-- The text of such a line is valid. -/
theorem OnBoundaries.isUtf8 {l : PresenceLine} (h : OnBoundaries body l) :
    IsUtf8 (lineText body l) := isUtf8_between h.start h.stop

/-- **Line breaks never cut a character**, at any line limit: each line of valid text starts and
ends on a boundary and is valid text itself, of at most 21 bytes. -/
theorem presenceLayoutBody_isUtf8 (body : CString) (lines : ℕ → PresenceLine) (maxLines : ℕ)
    (hb : IsUtf8 body.bytes) (hlen : body.strlen ≤ 65535) :
    ∀ l ∈ layoutLines (presenceLayoutBody (some body) (some lines) maxLines),
      OnBoundaries body l ∧ IsUtf8 (lineText body l) ∧ l.length ≤ presenceLineChars := by
  obtain ⟨fs, hfs⟩ := exists_laidOut body
  intro l hl
  rw [layoutLines_eq_trueLines lines maxLines hlen, hfs.trueLines_eq] at hl
  have hmem := List.mem_of_mem_take hl
  have hon := hfs.boundaries hb l hmem
  exact ⟨hon, hon.isUtf8, (hfs.goodLine l hmem).width⟩

/-- Characters of two bytes, of which only ten fit on a line. -/
def accentBody : CString := .ofString "éééééééééééé"

theorem presenceLayoutBody_isUtf8_accentBody :
    OnBoundaries accentBody ⟨0, 20⟩ ∧ IsUtf8 (lineText accentBody ⟨0, 20⟩) := by
  obtain ⟨hon, hutf8, -⟩ := presenceLayoutBody_isUtf8 accentBody (fun _ => default) 2
    ⟨List.replicate 12 'é', by decide⟩ (by decide) ⟨0, 20⟩ (by decide)
  exact ⟨hon, hutf8⟩

end PresenceDevice
