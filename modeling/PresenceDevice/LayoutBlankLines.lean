import PresenceDevice.LayoutSegments

/-!
# Blank lines that nobody wrote

A line of length zero should stand for a segment without text. A wrap, however, leaves the
variables of the loop as a newline does: if only blanks follow up to the next newline, they are
skipped, and the newline finds an empty line to end. At the end of the body the same blanks add no
line.

This happens exactly where the last line of a segment's text fits and the blanks behind it do not,
`OverlongTail`. `LineStart` are the offsets at which the rules start a line, read off the body.

## Main definitions

* `NoInventedBlank`: lines of length zero stand for segments of blanks
* `LineStart`, `OverlongTail`: where they do not

## Main results

* `presenceLayoutBody_noInventedBlank_iff`: no blank line is invented exactly when no line starts
  in front of an overlong tail
* `not_noInventedBlank_fullLine`: a full line with a blank behind it
-/

namespace PresenceDevice

variable {body : CString} {ls fs : List PresenceLine} {p n : ℕ}

/-- The offset `s` is in a segment of blanks only. -/
def InBlankSegment (body : CString) (s : ℕ) : Prop :=
  ∃ a n, IsSegment body a n ∧ a ≤ s ∧ s ≤ n ∧ ∀ i, a ≤ i → i < n → IsBlank (body.charAt i)

/-- Lines of length zero stand for segments of blanks. -/
def NoInventedBlank (body : CString) (ls : List PresenceLine) : Prop :=
  ∀ l ∈ ls, l.length = 0 → InBlankSegment body l.start

/-- The offsets at which the rules of the wrap start a line, with the number of lines before. -/
inductive LineStart (body : CString) : ℕ → ℕ → Prop
  | start : LineStart body 0 0
  | skip {k p : ℕ} : LineStart body k p → IsBlank (body.charAt p) → LineStart body k (p + 1)
  | newline {k p e : ℕ} : LineStart body k p → Scanned body p e → body.charAt e = newline →
      LineStart body (k + 1) (e + 1)
  | wrap {k p q b : ℕ} : LineStart body k p → Scanned body p q → Overflows body p q →
      LastBlank body p q (some b) → LineStart body (k + 1) (b + 1)
  | split {k p q : ℕ} : LineStart body k p → Scanned body p q → Overflows body p q →
      LastBlank body p q none → LineStart body (k + 1) q

/-- From `p` to the newline at `n`, the text fits on a line but the blanks behind it do not, and
the line is broken behind its 21st byte: that is a blank, or the line is a single word. -/
structure OverlongTail (body : CString) (p n : ℕ) : Prop where
  head : ¬ IsBlank (body.charAt p)
  no_newline : ∀ i, p ≤ i → i < n → body.charAt i ≠ newline
  newline : body.charAt n = newline
  long : p + presenceLineChars < n
  blanks : ∀ i, p + presenceLineChars ≤ i → i < n → IsBlank (body.charAt i)
  full : IsBlank (body.charAt (p + presenceLineChars - 1)) ∨
    ∀ i, p ≤ i → i < p + presenceLineChars → ¬ IsBlank (body.charAt i)

theorem Emitted.lineStart (h : Emitted body ls p) : LineStart body ls.length p := by
  induction h with
  | start => exact .start
  | skip _ hb ih => exact ih.skip hb
  | newline _ hs hn ih =>
    rw [List.length_append]
    exact ih.newline hs hn
  | wrap _ hs ho hb ih =>
    rw [List.length_append]
    exact ih.wrap hs ho hb
  | split _ hs ho hb ih =>
    rw [List.length_append]
    exact ih.split hs ho hb

theorem LineStart.emitted {k : ℕ} (h : LineStart body k p) :
    ∃ ls, ls.length = k ∧ Emitted body ls p := by
  induction h with
  | start => exact ⟨[], rfl, .start⟩
  | skip _ hb ih =>
    obtain ⟨ls, hlen, hls⟩ := ih
    exact ⟨ls, hlen, hls.skip hb⟩
  | newline _ hs hn ih =>
    obtain ⟨ls, hlen, hls⟩ := ih
    exact ⟨_, by rw [List.length_append, hlen]; rfl, hls.newline hs hn⟩
  | wrap _ hs ho hb ih =>
    obtain ⟨ls, hlen, hls⟩ := ih
    exact ⟨_, by rw [List.length_append, hlen]; rfl, hls.wrap hs ho hb⟩
  | split _ hs ho hb ih =>
    obtain ⟨ls, hlen, hls⟩ := ih
    exact ⟨_, by rw [List.length_append, hlen]; rfl, hls.split hs ho hb⟩

/-! ### An overlong tail invents a blank line -/

/-- A run of blanks at a line start is skipped. -/
theorem Emitted.skip_to {s : ℕ} (h : Emitted body ls s) (hsn : s ≤ n)
    (hblank : ∀ i, s ≤ i → i < n → IsBlank (body.charAt i)) : Emitted body ls n := by
  induction n, hsn using Nat.le_induction with
  | base => exact h
  | succ n hsn ih =>
    exact (ih fun i h1 h2 => hblank i h1 (by omega)).skip (hblank n hsn (Nat.lt_succ_self n))

/-- The line in front of an overlong tail ends with its 21st byte or in front of it, and the next
one starts behind. -/
theorem OverlongTail.emitted_break (h : OverlongTail body p n) (hls : Emitted body ls p) :
    ∃ x, Emitted body (ls ++ [x]) (p + presenceLineChars) := by
  have hlong := h.long
  have hblank := h.blanks _ (Nat.le_refl _) hlong
  have hlt := CString.lt_strlen_of_charAt_ne_zero hblank.ne_zero
  have hpos : p < p + presenceLineChars := by simp [presenceLineChars]
  have hscan : Scanned body p (p + presenceLineChars) :=
    ⟨hpos.le, Nat.le_refl _, hlt.le, fun i h1 h2 => h.no_newline i h1 (h2.trans hlong),
      fun _ => h.head, sequenceSteps_to hpos.le hblank.not_isContinuation⟩
  have hover : Overflows body p (p + presenceLineChars) := by
    refine ⟨hpos, hblank.ne_zero, hblank.ne_newline, ?_⟩
    rw [utf8SequenceLength_of_isBlank hblank]
    omega
  rcases h.full with hlast | hword
  · have hne : p ≠ p + presenceLineChars - 1 := by simp [presenceLineChars]
    have hb : LastBlank body p (p + presenceLineChars) (some (p + presenceLineChars - 1)) :=
      ⟨by omega, by omega, hlast, fun i h1 h2 => by omega⟩
    have hnext := hls.wrap hscan hover hb
    rw [Nat.sub_add_cancel (by omega)] at hnext
    exact ⟨_, hnext⟩
  · exact ⟨_, hls.split hscan hover hword⟩

theorem OverlongTail.emitted_blank (h : OverlongTail body p n) (hls : Emitted body ls p) :
    ∃ x, Emitted body (ls ++ [x] ++ [⟨n, 0⟩]) (n + 1) := by
  obtain ⟨x, hx⟩ := h.emitted_break hls
  have hn := h.newline
  have hlt := lt_strlen_of_newline hn
  have hskip := hx.skip_to h.long.le h.blanks
  have hline := hskip.newline (.refl hlt.le) hn
  rw [Nat.sub_self] at hline
  exact ⟨x, hline⟩

/-- The newline behind an overlong tail is in no segment of blanks. -/
theorem OverlongTail.not_inBlankSegment (h : OverlongTail body p n) : ¬ InBlankSegment body n := by
  rintro ⟨a, m, hseg, han, hnm, hblank⟩
  have hlong := h.long
  rcases Nat.eq_or_lt_of_le hnm with rfl | hlt
  · exact h.head (hblank p (hseg.start_le h.no_newline) (by omega))
  · exact hseg.no_newline n han hlt h.newline

/-! ### Nothing else does -/

/-- Only blanks since the last newline. -/
def FreshLine (body : CString) (p : ℕ) : Prop :=
  ∃ a ≤ p, (a = 0 ∨ body.charAt (a - 1) = newline) ∧ ∀ i, a ≤ i → i < p → IsBlank (body.charAt i)

/-- The line before was broken, and if a newline is next, it was in front of an overlong tail. -/
def ContinuedLine (body : CString) (k p : ℕ) : Prop :=
  ∃ k' p', k = k' + 1 ∧ LineStart body k' p' ∧
    ∀ n, p ≤ n → (∀ i, p ≤ i → i < n → IsBlank (body.charAt i)) → body.charAt n = newline →
      OverlongTail body p' n

theorem FreshLine.skip (h : FreshLine body p) (hb : IsBlank (body.charAt p)) :
    FreshLine body (p + 1) := by
  obtain ⟨a, hap, hleft, hblank⟩ := h
  refine ⟨a, Nat.le_succ_of_le hap, hleft, ?_⟩
  intro i h1 h2
  rcases Nat.eq_or_lt_of_le (Nat.le_of_lt_succ h2) with rfl | hlt
  · exact hb
  · exact hblank i h1 hlt

theorem ContinuedLine.skip {k : ℕ} (h : ContinuedLine body k p) (hb : IsBlank (body.charAt p)) :
    ContinuedLine body k (p + 1) := by
  obtain ⟨k', p', hk, hstart, htail⟩ := h
  refine ⟨k', p', hk, hstart, ?_⟩
  intro n hpn hblank hn
  refine htail n (Nat.le_of_succ_le hpn) ?_ hn
  intro i h1 h2
  rcases Nat.eq_or_lt_of_le h1 with rfl | hlt
  · exact hb
  · exact hblank i hlt h2

/-- After a fresh start an empty line stands for a segment of blanks. -/
theorem FreshLine.inBlankSegment (h : FreshLine body p) (hp : p ≤ body.strlen)
    (hend : p = body.strlen ∨ body.charAt p = newline) : InBlankSegment body p := by
  obtain ⟨a, hap, hleft, hblank⟩ := h
  exact ⟨a, p, ⟨hap, hp, fun i h1 h2 => (hblank i h1 h2).ne_newline, hleft, hend⟩, hap,
    Nat.le_refl p, hblank⟩

/-- Blanks from a line break to a newline are an overlong tail. -/
theorem overlongTail_of_break {q s : ℕ} (hs : Scanned body p q) (ho : Overflows body p q)
    (hps : p < s) (hsq : s ≤ q)
    (hbreak : (s = q ∧ LastBlank body p q none) ∨ LastBlank body p q (some (s - 1)))
    (hsn : s ≤ n) (hblank : ∀ i, s ≤ i → i < n → IsBlank (body.charAt i))
    (hn : body.charAt n = newline) : OverlongTail body p n := by
  have hqn : q < n := by
    rcases Nat.lt_trichotomy q n with hlt | rfl | hgt
    · exact hlt
    · exact absurd hn ho.char_ne_newline
    · exact absurd hn (hs.no_newline n (by omega) hgt)
  have heq := ho.eq_of_isBlank hs (hblank q hsq hqn)
  -- between the last blank of the line and its end there is room for no word
  have hsq' : s = q := by
    rcases hbreak with ⟨rfl, -⟩ | ⟨-, -, -, hafter⟩
    · rfl
    · by_contra hne
      exact hafter s (by omega) (by omega) (hblank s (Nat.le_refl s) (by omega))
  subst hsq'
  refine ⟨hs.head hps, ?_, hn, heq ▸ hqn, heq ▸ hblank, ?_⟩
  · intro i h1 h2
    rcases Nat.lt_or_ge i s with hlt | hge
    · exact hs.no_newline i h1 hlt
    · exact (hblank i hge h2).ne_newline
  · rw [← heq]
    rcases hbreak with ⟨-, hword⟩ | ⟨-, -, hlast, -⟩
    · exact Or.inr hword
    · exact Or.inl hlast

/-- A line of length zero is in a segment of blanks, or the line before it, line `k`, is in front
of an overlong tail. -/
def BlankOrTail (body : CString) (ls : List PresenceLine) : Prop :=
  ∀ j l, ls[j]? = some l → l.length = 0 → InBlankSegment body l.start ∨
    ∃ k p n, j = k + 1 ∧ LineStart body k p ∧ OverlongTail body p n

theorem BlankOrTail.concat {l : PresenceLine} (h : BlankOrTail body ls)
    (hl : l.length = 0 → InBlankSegment body l.start ∨
      ∃ k p n, ls.length = k + 1 ∧ LineStart body k p ∧ OverlongTail body p n) :
    BlankOrTail body (ls ++ [l]) := by
  intro j x hx hzero
  rw [List.getElem?_append] at hx
  split_ifs at hx with hlt
  · exact h j x hx hzero
  · rw [List.getElem?_singleton] at hx
    split_ifs at hx with hj
    obtain rfl := Option.some.inj hx
    obtain rfl : j = ls.length := by omega
    exact hl hzero

/-- **What a rule leaves behind**: a fresh line, or one that continues a broken line. -/
theorem Emitted.blankOrTail (h : Emitted body ls p) :
    BlankOrTail body ls ∧ (FreshLine body p ∨ ContinuedLine body ls.length p) := by
  induction h with
  | start =>
    exact ⟨fun j l hj => by simp at hj,
      Or.inl ⟨0, Nat.le_refl 0, Or.inl rfl, fun i _ hi => absurd hi (Nat.not_lt_zero i)⟩⟩
  | skip _ hb ih => exact ⟨ih.1, ih.2.imp (·.skip hb) (·.skip hb)⟩
  | @newline ls p e hls hs hn ih =>
    refine ⟨ih.1.concat ?_, Or.inl ⟨e + 1, Nat.le_refl _, Or.inr hn, fun i h1 h2 => by omega⟩⟩
    intro hzero
    obtain rfl : p = e := by
      have := hs.le
      simp only at hzero
      omega
    rcases ih.2 with hfresh | ⟨k, p', hk, hstart, htail⟩
    · exact Or.inl (hfresh.inBlankSegment hs.le_strlen (Or.inr hn))
    · exact Or.inr ⟨k, p', p, hk, hstart,
        htail p (Nat.le_refl p) (fun i h1 h2 => absurd h1 (Nat.not_le_of_lt h2)) hn⟩
  | @wrap ls p q b hls hs ho hb ih =>
    have hpb := hb.1
    have hbq := hb.2.1
    refine ⟨ih.1.concat fun hzero => by simp only at hzero; omega, Or.inr ?_⟩
    refine ⟨ls.length, p, List.length_append, hls.lineStart, ?_⟩
    intro n hsn hblank hn
    exact overlongTail_of_break hs ho (Nat.lt_succ_of_lt hpb) hbq (Or.inr hb) hsn hblank hn
  | @split ls p q hls hs ho hb ih =>
    have hpq := ho.lt
    refine ⟨ih.1.concat fun hzero => by simp only at hzero; omega, Or.inr ?_⟩
    refine ⟨ls.length, p, List.length_append, hls.lineStart, ?_⟩
    intro n hsn hblank hn
    exact overlongTail_of_break hs ho hpq (Nat.le_refl q) (Or.inl ⟨rfl, hb⟩) hsn hblank hn

theorem LaidOut.blankOrTail (h : LaidOut body fs) : BlankOrTail body fs := by
  cases h with
  | @last ls p hls hs hdue =>
    refine hls.blankOrTail.1.concat ?_
    intro hzero
    obtain rfl : p = body.strlen := by
      have := hs.le
      simp only at hzero
      omega
    left
    rcases hdue with hlt | rfl | hnl
    · exact absurd hlt (Nat.lt_irrefl _)
    · rcases hls.blankOrTail.2 with hfresh | ⟨k, p', hk, -⟩
      · exact hfresh.inBlankSegment (Nat.le_refl _) (Or.inl rfl)
      · exact absurd hk (Nat.succ_ne_zero k).symm
    · -- the last segment is empty
      have hfresh : FreshLine body body.strlen :=
        ⟨body.strlen, Nat.le_refl _, Or.inr hnl, fun i h1 h2 => absurd h1 (Nat.not_le_of_lt h2)⟩
      exact hfresh.inBlankSegment (Nat.le_refl _) (Or.inl rfl)
  | done hls _ _ => exact hls.blankOrTail.1

/-- **No blank line is invented exactly when no line starts in front of an overlong tail**, unless
the limit cuts the blank line off. -/
theorem presenceLayoutBody_noInventedBlank_iff (body : CString) (lines : ℕ → PresenceLine)
    (maxLines : ℕ) :
    NoInventedBlank body (trueLines body lines maxLines) ↔
      ∀ k p n, LineStart body k p → k + 1 < maxLines → ¬ OverlongTail body p n := by
  obtain ⟨fs, hfs⟩ := exists_laidOut body
  rw [hfs.trueLines_eq]
  constructor
  · intro hnone k p n hstart hk htail
    obtain ⟨ls, hlen, hls⟩ := hstart.emitted
    obtain ⟨x, hx⟩ := htail.emitted_blank hls
    obtain ⟨rest, rfl⟩ := hfs.prefix_of_emitted hx
    have hlength : (ls ++ [x]).length = k + 1 := by rw [List.length_append, hlen]; rfl
    have hmem : ⟨n, 0⟩ ∈ List.take maxLines (ls ++ [x] ++ [⟨n, 0⟩] ++ rest) := by
      apply List.mem_of_getElem? (i := k + 1)
      rw [List.getElem?_take_of_lt hk, ← hlength, List.append_assoc,
        List.getElem?_append_right (Nat.le_refl _), Nat.sub_self]
      rfl
    exact htail.not_inBlankSegment (hnone ⟨n, 0⟩ hmem rfl)
  · intro hnone l hl hzero
    obtain ⟨j, hj⟩ := List.mem_iff_getElem?.mp hl
    have hjlt : j < maxLines := by
      have := (List.getElem?_eq_some_iff.mp hj).1
      rw [List.length_take] at this
      omega
    rw [List.getElem?_take_of_lt hjlt] at hj
    rcases hfs.blankOrTail j l hj hzero with hblank | ⟨k, p, n, rfl, hstart, htail⟩
    · exact hblank
    · exact absurd htail (hnone k p n hstart hjlt)

/-- A word that fills the line, and a blank in front of the newline. -/
def fullLineBody : CString := .ofString "aaaaaaaaaaaaaaaaaaaaa \nb"

/-- **A full line with a blank behind it is followed by a blank line** that the body does not
have. -/
theorem not_noInventedBlank_fullLine :
    ¬ NoInventedBlank fullLineBody (trueLines fullLineBody (fun _ => default) 16) := by
  intro h
  have hlines : trueLines fullLineBody (fun _ => default) 16 = [⟨0, 21⟩, ⟨22, 0⟩, ⟨23, 1⟩] := by
    decide
  rw [hlines] at h
  have hletter : ∀ i < 21, fullLineBody.charAt i = 97 := by decide
  have hblank : fullLineBody.charAt 21 = ' '.toUInt8 := by decide
  have htail : OverlongTail fullLineBody 0 22 := by
    refine ⟨by decide, ?_, by decide, by decide, ?_, Or.inr ?_⟩
    · intro i _ hi
      rcases Nat.eq_or_lt_of_le (Nat.le_of_lt_succ hi) with rfl | hlt
      · rw [hblank]
        decide
      · rw [hletter i hlt]
        decide
    · intro i h1 h2
      obtain rfl : i = 21 := by
        simp only [presenceLineChars] at h1
        omega
      exact Or.inl hblank
    · intro i _ hi
      rw [hletter i (by simpa [presenceLineChars] using hi)]
      decide
  exact htail.not_inBlankSegment (h ⟨22, 0⟩ (by simp) rfl)

end PresenceDevice
