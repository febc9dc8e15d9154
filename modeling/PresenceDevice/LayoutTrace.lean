import Mathlib.Logic.Relation
import Mathlib.Tactic.SplitIfs
import PresenceDevice.Library.Utf8
import PresenceDevice.PresenceLayout

/-!
# What the layout loop emits, and why

The loop of `presence_layout_body` moves four variables, one of them backwards. `Emitted` is the
same computation line by line: from a line start it either skips a blank, or scans forward to a
newline or to the first sequence that no longer fits, and in the latter case breaks behind the last
blank of the line or, without one, in front of that sequence. The loop is shown to follow these
rules once, in `layoutStep_inv`; everything said about the lines afterwards is an induction on
`Emitted`.

## Main definitions

* `Scanned`, `LastBlank`, `Overflows`: what the variables record about the current line
* `Emitted`: the lines emitted so far and the offset at which the next one starts
* `LaidOut`: a complete layout

## Main results

* `layoutLoop_exits`: the loop ends
* `presenceLayoutBody_laidOut`: with enough room, `presence_layout_body` computes a `LaidOut` list
-/

namespace PresenceDevice

variable {body : CString}

/-- The newline byte. -/
abbrev newline : UInt8 := '\n'.toUInt8

/-! ### Bytes and sequences -/

theorem not_isContinuation_newline : ¬ Utf8.IsContinuation newline := by decide

theorem not_isContinuation_zero : ¬ Utf8.IsContinuation 0 := by decide

theorem IsBlank.not_isContinuation {c : UInt8} (h : IsBlank c) : ¬ Utf8.IsContinuation c := by
  rcases h with rfl | rfl <;> decide

theorem IsBlank.ne_newline {c : UInt8} (h : IsBlank c) : c ≠ newline := by
  rcases h with rfl | rfl <;> decide

theorem IsBlank.ne_zero {c : UInt8} (h : IsBlank c) : c ≠ 0 := by
  rcases h with rfl | rfl <;> decide

/-- A newline is inside the body. -/
theorem lt_strlen_of_newline {body : CString} {p : ℕ} (h : body.charAt p = newline) :
    p < body.strlen := by
  apply CString.lt_strlen_of_charAt_ne_zero
  rw [h]
  decide

theorem utf8SequenceLength_pos (body : CString) (p : ℕ) : 0 < utf8SequenceLength body p := by
  simp only [utf8SequenceLength]
  split_ifs <;> omega

theorem utf8SequenceLength_le (body : CString) (p : ℕ) : utf8SequenceLength body p ≤ 4 := by
  simp only [utf8SequenceLength]
  split_ifs <;> omega

/-- Past its first byte, a decoded sequence has continuation bytes only. -/
theorem isContinuation_of_lt_sequence {p i : ℕ} (hi : 0 < i)
    (hlt : i < utf8SequenceLength body p) : Utf8.IsContinuation (body.charAt (p + i)) := by
  simp only [utf8SequenceLength] at hlt
  split_ifs at hlt with h1 h2 h3 h4
  · omega
  · obtain rfl : i = 1 := by omega
    exact h2.2
  · obtain rfl | rfl : i = 1 ∨ i = 2 := by omega
    · exact h3.2.1
    · exact h3.2.2
  · obtain rfl | rfl | rfl : i = 1 ∨ i = 2 ∨ i = 3 := by omega
    · exact h4.2.1
    · exact h4.2.2.1
    · exact h4.2.2.2
  · omega

/-- A blank is a sequence of its own. -/
theorem utf8SequenceLength_of_isBlank {p : ℕ} (h : IsBlank (body.charAt p)) :
    utf8SequenceLength body p = 1 := by
  have hascii : body.charAt p &&& 0x80 = 0 := by
    rcases h with h | h <;> rw [h] <;> decide
  simp [utf8SequenceLength, hascii]

/-- A sequence that starts before the terminator ends before it. -/
theorem sequence_le_strlen {p : ℕ} (h : body.charAt p ≠ 0) :
    p + utf8SequenceLength body p ≤ body.strlen := by
  by_contra hgt
  have hlt := CString.lt_strlen_of_charAt_ne_zero h
  have hz : body.charAt (p + (body.strlen - p)) = 0 := CString.charAt_of_le (by omega)
  have hc : Utf8.IsContinuation (body.charAt (p + (body.strlen - p))) :=
    isContinuation_of_lt_sequence (by omega) (by omega)
  rw [hz] at hc
  exact not_isContinuation_zero hc

/-! ### The current line -/

/-- One whole sequence, from its first byte to the byte after it. -/
def SequenceStep (body : CString) (e e' : ℕ) : Prop := e' = e + utf8SequenceLength body e

/-- The loop has read the bytes from `a` to `e` onto one line. -/
structure Scanned (body : CString) (a e : ℕ) : Prop where
  le : a ≤ e
  fits : e ≤ a + presenceLineChars
  le_strlen : e ≤ body.strlen
  no_newline : ∀ i, a ≤ i → i < e → body.charAt i ≠ newline
  head : a < e → ¬ IsBlank (body.charAt a)
  aligned : Relation.ReflTransGen (SequenceStep body) a e

/-- `o` is the last blank of the line from `a` to `e`, if it has one. -/
def LastBlank (body : CString) (a e : ℕ) : Option ℕ → Prop
  | none => ∀ i, a ≤ i → i < e → ¬ IsBlank (body.charAt i)
  | some b => a < b ∧ b < e ∧ IsBlank (body.charAt b) ∧
      ∀ i, b < i → i < e → ¬ IsBlank (body.charAt i)

/-- The sequence at `q` no longer fits on the non-empty line that started at `a`. -/
structure Overflows (body : CString) (a q : ℕ) : Prop where
  lt : a < q
  char_ne_zero : body.charAt q ≠ 0
  char_ne_newline : body.charAt q ≠ newline
  full : q - a + utf8SequenceLength body q > presenceLineChars

/-- When the byte that does not fit is a blank, the line is full. -/
theorem Overflows.eq_of_isBlank {p q : ℕ} (ho : Overflows body p q) (hs : Scanned body p q)
    (hb : IsBlank (body.charAt q)) : q = p + presenceLineChars := by
  have hlt := ho.lt
  have hfull := ho.full
  have hfits := hs.fits
  rw [utf8SequenceLength_of_isBlank hb] at hfull
  omega

theorem Scanned.refl {a : ℕ} (h : a ≤ body.strlen) : Scanned body a a where
  le := Nat.le_refl a
  fits := Nat.le_add_right ..
  le_strlen := h
  no_newline i h1 h2 := by omega
  head h := by omega
  aligned := .refl

theorem LastBlank.refl {a : ℕ} : LastBlank body a a none := fun i h1 h2 => by omega

/-- An empty line has no last blank. -/
theorem LastBlank.eq_none {a : ℕ} {o : Option ℕ} (h : LastBlank body a a o) : o = none := by
  cases o with
  | none => rfl
  | some b =>
    obtain ⟨hab, hba, -⟩ := h
    omega

/-- Reading one more sequence onto the line. -/
theorem Scanned.step {a e : ℕ} (h : Scanned body a e) (hz : body.charAt e ≠ 0)
    (hn : body.charAt e ≠ newline) (hb : a = e → ¬ IsBlank (body.charAt e))
    (hfit : e - a + utf8SequenceLength body e ≤ presenceLineChars) :
    Scanned body a (e + utf8SequenceLength body e) where
  le := Nat.le_trans h.le (Nat.le_add_right ..)
  fits := by
    have := h.le
    omega
  le_strlen := sequence_le_strlen hz
  no_newline i h1 h2 := by
    rcases Nat.lt_trichotomy i e with hlt | rfl | hgt
    · exact h.no_newline i h1 hlt
    · exact hn
    · obtain ⟨j, rfl⟩ := Nat.exists_eq_add_of_le (Nat.le_of_lt hgt)
      intro heq
      have hcont : Utf8.IsContinuation (body.charAt (e + j)) :=
        isContinuation_of_lt_sequence (by omega) (by omega)
      exact not_isContinuation_newline (heq ▸ hcont)
  head _ := by
    rcases Nat.eq_or_lt_of_le h.le with heq | hlt
    · exact heq ▸ hb heq
    · exact h.head hlt
  aligned := h.aligned.tail rfl

theorem LastBlank.step {a e : ℕ} {o : Option ℕ} (h : LastBlank body a e o) (hae : a ≤ e)
    (hb : a = e → ¬ IsBlank (body.charAt e)) :
    LastBlank body a (e + utf8SequenceLength body e)
      (if IsBlank (body.charAt e) then some e else o) := by
  have hpos := utf8SequenceLength_pos body e
  -- the bytes after the first of the new sequence are not blanks
  have htail : ∀ i, e < i → i < e + utf8SequenceLength body e → ¬ IsBlank (body.charAt i) := by
    intro i h1 h2 hblank
    obtain ⟨j, rfl⟩ := Nat.exists_eq_add_of_le (Nat.le_of_lt h1)
    exact hblank.not_isContinuation
      (isContinuation_of_lt_sequence (by omega) (by omega))
  split_ifs with hblank
  · have hne : a ≠ e := fun heq => hb heq hblank
    exact ⟨by omega, by omega, hblank, htail⟩
  · cases o with
    | none =>
      intro i h1 h2
      rcases Nat.lt_trichotomy i e with hlt | rfl | hgt
      · exact h i h1 hlt
      · exact hblank
      · exact htail i hgt h2
    | some b =>
      obtain ⟨hab, hbe, hblankb, hafter⟩ := h
      refine ⟨hab, by omega, hblankb, ?_⟩
      intro i h1 h2
      rcases Nat.lt_trichotomy i e with hlt | rfl | hgt
      · exact hafter i h1 hlt
      · exact hblank
      · exact htail i hgt h2

/-! ### Line by line -/

/-- The lines emitted so far, and the offset at which the next line starts. Starts and lengths
are the true ones, before they are cast into the fields of a `PresenceLine`. -/
inductive Emitted (body : CString) : List PresenceLine → ℕ → Prop
  /-- The loop starts at the first byte. -/
  | start : Emitted body [] 0
  /-- A blank at the start of a line is dropped. -/
  | skip {ls : List PresenceLine} {p : ℕ} : Emitted body ls p → IsBlank (body.charAt p) →
      Emitted body ls (p + 1)
  /-- A newline ends the line and is dropped. -/
  | newline {ls : List PresenceLine} {p e : ℕ} : Emitted body ls p → Scanned body p e →
      body.charAt e = newline → Emitted body (ls ++ [⟨p, e - p⟩]) (e + 1)
  /-- On overflow the line ends at its last blank, which is dropped. -/
  | wrap {ls : List PresenceLine} {p q b : ℕ} : Emitted body ls p → Scanned body p q →
      Overflows body p q → LastBlank body p q (some b) →
      Emitted body (ls ++ [⟨p, b - p⟩]) (b + 1)
  /-- On overflow without a blank the word is split. -/
  | split {ls : List PresenceLine} {p q : ℕ} : Emitted body ls p → Scanned body p q →
      Overflows body p q → LastBlank body p q none →
      Emitted body (ls ++ [⟨p, q - p⟩]) q

/-- Every line costs at least one byte. -/
theorem Emitted.length_le {ls : List PresenceLine} {p : ℕ} (h : Emitted body ls p) :
    ls.length ≤ p := by
  induction h with
  | start => exact Nat.le_refl 0
  | skip _ _ ih => omega
  | newline _ hs _ ih =>
    have := hs.le
    simp only [List.length_append, List.length_singleton]
    omega
  | wrap _ _ _ hb ih =>
    have := hb.1
    simp only [List.length_append, List.length_singleton]
    omega
  | split _ _ ho _ ih =>
    have := ho.lt
    simp only [List.length_append, List.length_singleton]
    omega

/-! ### The loop follows the rules -/

/-- The array entries written so far. -/
def LayoutState.emitted (s : LayoutState) : List PresenceLine :=
  (List.range s.lineCount).map s.lines

/-- The cast that stores a line. -/
def PresenceLine.stored (l : PresenceLine) : PresenceLine := .cast l.start l.length

/-- The line that a pass from `s` to `s'` stores, with its start as `line_start` has it, before the
cast. -/
def LayoutState.storedBy (s s' : LayoutState) : List PresenceLine :=
  if s.lineCount < s'.lineCount then [⟨s.lineStart, (s'.lines s.lineCount).length⟩] else []

@[simp] theorem LayoutState.storedBy_self (s : LayoutState) : s.storedBy s = [] :=
  if_neg (Nat.lt_irrefl _)

/-- The variables after a line of the given length, when the next one starts at `p`. -/
def LayoutState.nextLine (s : LayoutState) (length p : ℕ) : LayoutState :=
  { s.emit s.lineStart length with
    position := p, lineStart := p, lineLength := 0, lastSpace := none }

theorem LayoutState.storedBy_emit {s : LayoutState} {length : ℕ} (h : length < 256) :
    s.storedBy (s.emit s.lineStart length) = [⟨s.lineStart, length⟩] := by
  simp [LayoutState.storedBy, LayoutState.emit, PresenceLine.cast, Nat.mod_eq_of_lt h]

theorem LayoutState.storedBy_nextLine {s : LayoutState} {length p : ℕ} (h : length < 256) :
    s.storedBy (s.nextLine length p) = [⟨s.lineStart, length⟩] :=
  LayoutState.storedBy_emit h

theorem LayoutState.emitted_emit (s : LayoutState) (start length : ℕ) :
    (s.emit start length).emitted = s.emitted ++ [PresenceLine.stored ⟨start, length⟩] := by
  have hold : (List.range s.lineCount).map
      (Function.update s.lines s.lineCount (PresenceLine.cast start length)) = s.emitted := by
    refine List.map_congr_left fun i hi => Function.update_of_ne ?_ _ _
    exact Nat.ne_of_lt (List.mem_range.mp hi)
  simp only [LayoutState.emitted, LayoutState.emit, List.range_succ, List.map_append, hold,
    List.map_cons, List.map_nil, Function.update_self]
  rfl

/-- The variables of the loop say what `Emitted`, `Scanned` and `LastBlank` say. -/
structure LayoutInv (body : CString) (s : LayoutState) (ls : List PresenceLine) : Prop where
  emitted : s.emitted = ls.map PresenceLine.stored
  lines : Emitted body ls s.lineStart
  scanned : Scanned body s.lineStart s.position
  length : s.lineLength = s.position - s.lineStart
  lastSpace : LastBlank body s.lineStart s.position s.lastSpace

theorem layoutStart_inv (lines : ℕ → PresenceLine) : LayoutInv body (layoutStart lines) [] where
  emitted := rfl
  lines := .start
  scanned := .refl (Nat.zero_le _)
  length := rfl
  lastSpace := .refl

theorem LayoutInv.lineCount {s : LayoutState} {ls : List PresenceLine}
    (h : LayoutInv body s ls) : s.lineCount = ls.length := by
  simpa [LayoutState.emitted] using congrArg List.length h.emitted

/-- There are no more lines than bytes read. -/
theorem LayoutInv.lineCount_le {s : LayoutState} {ls : List PresenceLine}
    (h : LayoutInv body s ls) : s.lineCount ≤ s.position := by
  rw [h.lineCount]
  exact Nat.le_trans h.lines.length_le h.scanned.le

/-- Decreases with every pass: a line start never moves back, and the cursor is at most one line
ahead of it. -/
def layoutMeasure (body : CString) (s : LayoutState) : ℕ :=
  (presenceLineChars + 1) * (body.strlen - s.lineStart) - (s.position - s.lineStart)

/-- A line that a rule ends leaves the loop at the start of the next one, with a smaller
measure. -/
theorem LayoutInv.nextLine {s : LayoutState} {ls : List PresenceLine} {length p : ℕ}
    (h : LayoutInv body s ls) (hlength : length < 256)
    (hline : Emitted body (ls ++ [⟨s.lineStart, length⟩]) p) (hlt : s.lineStart < p)
    (hp : p ≤ body.strlen) :
    LayoutInv body (s.nextLine length p) (ls ++ s.storedBy (s.nextLine length p)) ∧
      layoutMeasure body (s.nextLine length p) < layoutMeasure body s := by
  have hle := h.scanned.le
  have hfits := h.scanned.fits
  rw [LayoutState.storedBy_nextLine hlength]
  constructor
  · constructor
    case emitted =>
      rw [List.map_append, ← h.emitted]
      exact s.emitted_emit _ _
    case lines => exact hline
    case scanned => exact .refl hp
    case length => exact (Nat.sub_self p).symm
    case lastSpace => exact .refl
  · simp only [layoutMeasure, presenceLineChars, LayoutState.nextLine] at *
    omega

/-- The five ways through the body of the loop. -/
theorem layoutStep_cases {maxLines : ℕ} {s s' : LayoutState}
    (h : layoutStep body maxLines s = some s') :
    (body.charAt s.position ≠ 0 ∧ s.lineCount < maxLines) ∧
      ((body.charAt s.position = newline ∧
          s' = { s.emit s.lineStart s.lineLength with
            position := s.position + 1, lineStart := s.position + 1,
            lineLength := 0, lastSpace := none }) ∨
        (body.charAt s.position ≠ newline ∧ s.lineLength > 0 ∧
          s.lineLength + utf8SequenceLength body s.position > presenceLineChars ∧
          ((∃ b, s.lastSpace = some b ∧
              s' = { s.emit s.lineStart (b - s.lineStart) with
                position := b + 1, lineStart := b + 1, lineLength := 0, lastSpace := none }) ∨
            (s.lastSpace = none ∧
              s' = { s.emit s.lineStart s.lineLength with
                lineStart := s.position, lineLength := 0, lastSpace := none }))) ∨
        (IsBlank (body.charAt s.position) ∧ s.lineLength = 0 ∧
          s' = { s with position := s.position + 1, lineStart := s.position + 1 }) ∨
        (body.charAt s.position ≠ newline ∧
          (s.lineLength = 0 → ¬ IsBlank (body.charAt s.position)) ∧
          (s.lineLength > 0 →
            s.lineLength + utf8SequenceLength body s.position ≤ presenceLineChars) ∧
          s' = { s with
            lastSpace := if IsBlank (body.charAt s.position) then some s.position else s.lastSpace
            lineLength := s.lineLength + utf8SequenceLength body s.position
            position := s.position + utf8SequenceLength body s.position })) := by
  simp only [layoutStep] at h
  split_ifs at h with hguard hnl hover hskip hblank
  · exact ⟨hguard, Or.inl ⟨hnl, (Option.some.inj h).symm⟩⟩
  · refine ⟨hguard, Or.inr (Or.inl ⟨hnl, hover.1, hover.2, ?_⟩)⟩
    cases hs : s.lastSpace with
    | some b => exact Or.inl ⟨b, rfl, by simpa [hs] using h.symm⟩
    | none => exact Or.inr ⟨rfl, by simpa [hs] using h.symm⟩
  · exact ⟨hguard, Or.inr (Or.inr (Or.inl ⟨hskip.1, hskip.2, (Option.some.inj h).symm⟩))⟩
  all_goals
    refine ⟨hguard, Or.inr (Or.inr (Or.inr ⟨hnl, fun h0 hb => hskip ⟨hb, h0⟩,
      fun hpos => Nat.le_of_not_lt fun hgt => hover ⟨hpos, hgt⟩, ?_⟩))⟩
    simpa [hblank] using h.symm

/-- **One pass of the loop is one rule, or one more sequence on the current line.** -/
theorem layoutStep_inv {maxLines : ℕ} {s s' : LayoutState} {ls : List PresenceLine}
    (h : LayoutInv body s ls) (hstep : layoutStep body maxLines s = some s') :
    LayoutInv body s' (ls ++ s.storedBy s') ∧ layoutMeasure body s' < layoutMeasure body s := by
  have hinv := h
  obtain ⟨hemit, hlines, hscan, hlen, hspace⟩ := h
  have hle := hscan.le
  have hfits := hscan.fits
  obtain ⟨⟨hz, -⟩, hcases⟩ := layoutStep_cases hstep
  have hlt := CString.lt_strlen_of_charAt_ne_zero hz
  simp only [presenceLineChars] at hfits
  rcases hcases with ⟨hnl, rfl⟩ | ⟨hnl, hpos, hover, ⟨b, hb, rfl⟩ | ⟨hb, rfl⟩⟩ |
    ⟨hblank, hzero, rfl⟩ | ⟨hnl, hhead, hfit, rfl⟩
  · have hline := hlines.newline hscan hnl
    rw [← hlen] at hline
    exact hinv.nextLine (by omega) hline (by omega) hlt
  · rw [hb] at hspace
    obtain ⟨hab, hbe, hblank, hafter⟩ := hspace
    have hovf : Overflows body s.lineStart s.position := ⟨by omega, hz, hnl, by omega⟩
    have hline := hlines.wrap hscan hovf ⟨hab, hbe, hblank, hafter⟩
    exact hinv.nextLine (by omega) hline (by omega) (by omega)
  · rw [hb] at hspace
    have hovf : Overflows body s.lineStart s.position := ⟨by omega, hz, hnl, by omega⟩
    have hline := hlines.split hscan hovf hspace
    rw [← hlen] at hline
    exact hinv.nextLine (by omega) hline hovf.lt hscan.le_strlen
  · have heq : s.position = s.lineStart := by omega
    rw [heq] at hspace
    simp only [LayoutState.storedBy, Nat.lt_irrefl, if_false, List.append_nil]
    refine ⟨⟨hemit, heq ▸ hlines.skip (heq ▸ hblank), .refl hlt, ?_, ?_⟩, ?_⟩
    · simp [hzero]
    · simp only [hspace.eq_none]
      exact .refl
    · simp only [layoutMeasure, presenceLineChars]
      omega
  · have hseq := utf8SequenceLength_le body s.position
    have hpos := utf8SequenceLength_pos body s.position
    have hhead' : s.lineStart = s.position → ¬ IsBlank (body.charAt s.position) :=
      fun heq => hhead (by omega)
    have hfit' : s.position - s.lineStart + utf8SequenceLength body s.position ≤
        presenceLineChars := by
      rcases Nat.eq_zero_or_pos s.lineLength with h0 | h0
      · simp only [presenceLineChars]
        omega
      · exact hlen ▸ hfit h0
    simp only [LayoutState.storedBy, Nat.lt_irrefl, if_false, List.append_nil]
    refine ⟨⟨hemit, hlines, hscan.step hz hnl hhead' hfit', ?_, hspace.step hle hhead'⟩, ?_⟩
    · show s.lineLength + _ = s.position + _ - s.lineStart
      omega
    · simp only [layoutMeasure, presenceLineChars] at hfit' ⊢
      omega

/-! ### The loop ends -/

/-- The lines that the loop stores, before the casts. -/
def loopLines (body : CString) (lines : ℕ → PresenceLine) (maxLines : ℕ) : List PresenceLine :=
  Loop.log (layoutStep body maxLines) LayoutState.storedBy (layoutFuel body) (layoutStart lines)

theorem layoutLoop_inv (body : CString) (lines : ℕ → PresenceLine) (maxLines : ℕ) :
    LayoutInv body (layoutLoop body lines maxLines) (loopLines body lines maxLines) :=
  Loop.log_invariant (I := fun ls s => LayoutInv body s ls)
    (fun _ _ _ h hstep => (layoutStep_inv h hstep).1) (layoutStart_inv lines) _

/-- **The loop ends by its guard**, for any bytes and any line limit. -/
theorem layoutLoop_exits (body : CString) (lines : ℕ → PresenceLine) (maxLines : ℕ) :
    layoutStep body maxLines (layoutLoop body lines maxLines) = none :=
  Loop.run_exits (I := fun s => ∃ ls, LayoutInv body s ls) (layoutMeasure body)
    (fun _ _ ⟨_, h⟩ hstep => ⟨⟨_, (layoutStep_inv h hstep).1⟩, (layoutStep_inv h hstep).2⟩)
    ⟨[], layoutStart_inv lines⟩ (Nat.le_refl _)

theorem layoutStep_eq_none {maxLines : ℕ} {s : LayoutState}
    (h : layoutStep body maxLines s = none) :
    body.charAt s.position = 0 ∨ maxLines ≤ s.lineCount := by
  simp only [layoutStep] at h
  split_ifs at h with hguard hnl hover hskip
  · -- every branch of the body continues the loop
    cases hs : s.lastSpace <;> simp [hs] at h
  · rcases not_and_or.mp hguard with hz | hcount
    · exact Or.inl (not_not.mp hz)
    · exact Or.inr (Nat.le_of_not_lt hcount)

/-- With more room than bytes, the loop stops at the end of the body. -/
theorem layoutLoop_position (lines : ℕ → PresenceLine) {maxLines : ℕ}
    (hmax : body.strlen < maxLines) :
    (layoutLoop body lines maxLines).position = body.strlen := by
  have h := layoutLoop_inv body lines maxLines
  have hle := h.scanned.le_strlen
  rcases layoutStep_eq_none (layoutLoop_exits body lines maxLines) with hz | hcount
  · have := CString.charAt_eq_zero_iff.mp hz
    omega
  · have := h.lineCount_le
    omega

/-- Nor does it use up the room. -/
theorem layoutLoop_lineCount_lt (lines : ℕ → PresenceLine) {maxLines : ℕ}
    (hmax : body.strlen < maxLines) : (layoutLoop body lines maxLines).lineCount < maxLines := by
  have h := layoutLoop_inv body lines maxLines
  have := h.lineCount_le
  have := h.scanned.le_strlen
  omega

/-! ### Complete layouts -/

/-- The lines of a whole body, by the rules. -/
inductive LaidOut (body : CString) : List PresenceLine → Prop
  /-- What is left at the end of the body is a line, unless it is nothing and the last line
  already ended without a newline. -/
  | last {ls : List PresenceLine} {p : ℕ} : Emitted body ls p → Scanned body p body.strlen →
      (p < body.strlen ∨ ls = [] ∨ body.charAt (body.strlen - 1) = newline) →
      LaidOut body (ls ++ [⟨p, body.strlen - p⟩])
  | done {ls : List PresenceLine} : Emitted body ls body.strlen → ls ≠ [] →
      body.charAt (body.strlen - 1) ≠ newline → LaidOut body ls

/-- The line after the loop is stored like the others. -/
theorem layoutFinish_emitted {maxLines : ℕ} {s : LayoutState} {ls : List PresenceLine}
    (h : LayoutInv body s ls) :
    (layoutFinish body maxLines s).emitted =
      (ls ++ s.storedBy (layoutFinish body maxLines s)).map PresenceLine.stored := by
  have hfits := h.scanned.fits
  have hlen := h.length
  simp only [presenceLineChars] at hfits
  unfold layoutFinish
  split_ifs
  · rw [s.emitted_emit, LayoutState.storedBy_emit (by omega), h.emitted, List.map_append]
    rfl
  · rw [LayoutState.storedBy_self, List.append_nil, h.emitted]

theorem layoutFinish_laidOut {maxLines : ℕ} {s : LayoutState} {ls : List PresenceLine}
    (h : LayoutInv body s ls) (hend : s.position = body.strlen) (hroom : s.lineCount < maxLines) :
    LaidOut body (ls ++ s.storedBy (layoutFinish body maxLines s)) := by
  have hscan := hend ▸ h.scanned
  have hcount := h.lineCount
  have hls : s.lineCount = 0 ↔ ls = [] := by rw [hcount, List.length_eq_zero_iff]
  have hle := hscan.le
  have hfits := hscan.fits
  have hlen := h.length
  simp only [presenceLineChars] at hfits
  unfold layoutFinish
  split_ifs with hdue
  · rw [LayoutState.storedBy_emit (by omega), hlen, hend]
    refine .last h.lines hscan ?_
    rw [hls, hend] at hdue
    exact hdue.2.imp_left fun _ => by omega
  · simp only [hroom, true_and, not_or, hls, hend] at hdue
    obtain ⟨hzero, hne, hnl⟩ := hdue
    have hp : s.lineStart = body.strlen := by omega
    rw [LayoutState.storedBy_self, List.append_nil]
    exact .done (hp ▸ h.lines) hne hnl

theorem layoutLines_some (lines : ℕ → PresenceLine) (count : ℕ) :
    layoutLines (some lines, count) = (List.range count).map lines := rfl

/-- **With enough room, `presence_layout_body` computes a complete layout by the rules.** -/
theorem presenceLayoutBody_laidOut (body : CString) (lines : ℕ → PresenceLine) {maxLines : ℕ}
    (hmax : body.strlen < maxLines) :
    ∃ ls, LaidOut body ls ∧
      layoutLines (presenceLayoutBody (some body) (some lines) maxLines)
        = ls.map PresenceLine.stored := by
  have hne : maxLines ≠ 0 := by omega
  by_cases hempty : body.charAt 0 = 0
  · have hz : body.strlen = 0 := Nat.le_zero.mp (CString.charAt_eq_zero_iff.mp hempty)
    refine ⟨[] ++ [⟨0, body.strlen - 0⟩], .last .start ?_ (Or.inr (Or.inl rfl)), ?_⟩
    · rw [hz]
      exact .refl (Nat.zero_le _)
    · simp [presenceLayoutBody, hne, hempty, hz, layoutLines_some, PresenceLine.stored]
  · have h := layoutLoop_inv body lines maxLines
    have hend := layoutLoop_position lines hmax
    refine ⟨_, layoutFinish_laidOut h hend (layoutLoop_lineCount_lt lines hmax), ?_⟩
    simp only [presenceLayoutBody, if_neg hne, if_neg hempty, layoutLines_some]
    exact layoutFinish_emitted h

end PresenceDevice
