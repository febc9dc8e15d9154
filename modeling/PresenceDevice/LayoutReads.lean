import Mathlib.Data.ENat.Basic
import PresenceDevice.LayoutTrace
import PresenceDevice.Library.Traced

/-!
# Where the layout reads

`presence_layout_body` gets a bare pointer. Nothing in it compares an index with a length: it stays
inside the body because it never steps past a byte it has not seen to be nonzero, and that in turn
rests on the order in which its conditions are evaluated. `CString.charAt` answers every index, so
it cannot show this. Here the same functions run on memory, a byte at every signed offset from the
pointer, and record the offsets they read; `StringMemory` says that the string is there, and
nothing about the bytes around it.

The line limit may be `⊤`, for a caller that sets none.

## Main definitions

* `utf8SequenceLengthTraced`, `layoutStepTraced`, `layoutFinishTraced`, `presenceLayoutBodyTraced`:
  the functions of the source, with their reads
* `LayoutSafe`: what they may do with the memory around a string

## Main results

* `presenceLayoutBodyTraced_value`: without the reads, this is `presenceLayoutBody`
* `presenceLayoutBody_safe`: on any string and for any limit, the layout is safe
-/

namespace PresenceDevice

variable {body : CString}

/-! ### The functions, with their reads -/

/-- `(text[i] & mask) == bits`, where `text` is `&body[position]`. -/
def maskedByte (body : ℤ → UInt8) (position : ℕ) (i : ℤ) (mask bits : UInt8) :
    Traced ℤ Bool :=
  Traced.test body (position + i) (· &&& mask = bits)

/-- `utf8_sequence_length` at `&body[position]`. -/
def utf8SequenceLengthTraced (body : ℤ → UInt8) (position : ℕ) : Traced ℤ ℕ := do
  let text := maskedByte body position
  if ← text 0 0x80 0 then return 1
  else if ← (text 0 0xE0 0xC0).andThen (text 1 0xC0 0x80) then return 2
  else if ← ((text 0 0xF0 0xE0).andThen (text 1 0xC0 0x80)).andThen (text 2 0xC0 0x80) then
    return 3
  else if ← (((text 0 0xF8 0xF0).andThen (text 1 0xC0 0x80)).andThen (text 2 0xC0 0x80)).andThen
      (text 3 0xC0 0x80) then
    return 4
  else return 1

/-- The guard of the loop: `body[position] != '\0' && line_count < max_lines`. -/
def layoutGuardTraced (body : ℤ → UInt8) (maxLines : ℕ∞) (s : LayoutState) : Traced ℤ Bool :=
  (Traced.test body s.position (· ≠ 0)).andThen (return (s.lineCount : ℕ∞) < maxLines)

/-- One pass of the loop of `presence_layout_body`; `none` once its guard fails. -/
def layoutStepTraced (body : ℤ → UInt8) (maxLines : ℕ∞) (s : LayoutState) :
    Traced ℤ (Option LayoutState) := do
  if ← layoutGuardTraced body maxLines s then
    let character ← Traced.read body s.position
    if character = '\n'.toUInt8 then
      return some { s.emit s.lineStart s.lineLength with
        position := s.position + 1
        lineStart := s.position + 1
        lineLength := 0
        lastSpace := none }
    else
      let sequenceLength ← utf8SequenceLengthTraced body s.position
      if s.lineLength > 0 ∧ s.lineLength + sequenceLength > presenceLineChars then
        match s.lastSpace with
        | some lastSpace =>
          return some { s.emit s.lineStart (lastSpace - s.lineStart) with
            position := lastSpace + 1
            lineStart := lastSpace + 1
            lineLength := 0
            lastSpace := none }
        | none =>
          return some { s.emit s.lineStart s.lineLength with
            lineStart := s.position
            lineLength := 0
            lastSpace := none }
      else if IsBlank character ∧ s.lineLength = 0 then
        return some { s with position := s.position + 1, lineStart := s.position + 1 }
      else
        return some { s with
          lastSpace := if IsBlank character then some s.position else s.lastSpace
          lineLength := s.lineLength + sequenceLength
          position := s.position + sequenceLength }
  else return none

/-- The line after the loop, when it is due. The offset read is the one before `position`: with
`position` at `0` that is an offset outside the string. -/
def layoutFinishTraced (body : ℤ → UInt8) (maxLines : ℕ∞) (s : LayoutState) :
    Traced ℤ LayoutState := do
  if ← Traced.andThen (return (s.lineCount : ℕ∞) < maxLines)
      (Traced.orElse (Traced.orElse (return s.lineLength > 0) (return s.lineCount = 0))
        (Traced.test body (s.position - 1) (· = '\n'.toUInt8))) then
    return s.emit s.lineStart s.lineLength
  else return s

/-- `presence_layout_body`, with at most `fuel` tests of the guard of its loop; `none` if the loop
has not ended by then. -/
def presenceLayoutBodyTraced (fuel : ℕ) (body : Option (ℤ → UInt8))
    (lines : Option (ℕ → PresenceLine)) (maxLines : ℕ∞) :
    Traced ℤ (Option (Option (ℕ → PresenceLine) × ℕ)) :=
  match lines with
  | none => return some (none, 0)
  | some lines =>
    if maxLines = 0 then return some (some lines, 0)
    else
      match body with
      | none => return some (some (Function.update lines 0 (PresenceLine.cast 0 0)), 1)
      | some body => do
        let first ← Traced.read body 0
        if first = 0 then
          return some (some (Function.update lines 0 (PresenceLine.cast 0 0)), 1)
        else
          match ← Traced.loop (layoutStepTraced body maxLines) fuel (layoutStart lines) with
          | none => return none
          | some s =>
            let s ← layoutFinishTraced body maxLines s
            return some (some s.lines, s.lineCount)

/-! ### The string in memory -/

/-- The offsets of a string: its bytes and the terminator. -/
def InString (body : CString) (i : ℤ) : Prop := 0 ≤ i ∧ i ≤ body.strlen

/-- Memory around the pointer to a string. It holds the string and its terminator; what stands
before and behind them is arbitrary. -/
structure StringMemory (body : CString) where
  byte : ℤ → UInt8
  holds : ∀ i : ℕ, i ≤ body.strlen → byte i = body.charAt i

instance : Inhabited (StringMemory body) :=
  ⟨fun i => body.charAt i.toNat, fun i _ => by rw [Int.toNat_natCast]⟩

/-- The lookahead rule: behind a nonzero byte of the string there is another one. -/
theorem StringMemory.next (memory : StringMemory body) {i : ℤ} (hi : InString body i)
    (hne : memory.byte i ≠ 0) : InString body (i + 1) := by
  obtain ⟨h0, hle⟩ := hi
  obtain ⟨n, rfl⟩ := Int.eq_ofNat_of_zero_le h0
  rw [memory.holds n (by omega)] at hne
  have hlt := CString.lt_strlen_of_charAt_ne_zero hne
  constructor <;> omega

/-! ### `utf8_sequence_length` -/

variable {memory : ℤ → UInt8} {p : ℕ}

@[simp] theorem value_maskedByte (memory : ℤ → UInt8) (p : ℕ) (i : ℤ) (mask bits : UInt8) :
    (maskedByte memory p i mask bits).value = decide (memory (p + i) &&& mask = bits) := rfl

@[simp] theorem within_maskedByte {P : ℤ → Prop} {i : ℤ} {mask bits : UInt8} :
    Traced.Within P (maskedByte memory p i mask bits) ↔ P (p + i) := by
  simp [maskedByte]

/-- A byte with a bit set is not NUL. -/
theorem ne_zero_of_and_eq {c mask bits : UInt8} (h : c &&& mask = bits) (hb : bits ≠ 0) :
    c ≠ 0 := by
  rintro rfl
  exact hb (h.symm.trans (UInt8.zero_and ..))

/-- **The lookahead stops in time**: any set of offsets that with each nonzero byte contains the
next offset contains all that are read. -/
theorem utf8SequenceLengthTraced_within {P : ℤ → Prop} (hp : P p)
    (hnext : ∀ i, P i → memory i ≠ 0 → P (i + 1)) :
    Traced.Within P (utf8SequenceLengthTraced memory p) := by
  have h1 : memory p &&& 0x80 ≠ 0 → P (p + 1) := by
    intro h
    refine hnext p hp ?_
    intro h0
    exact h (by rw [h0, UInt8.zero_and])
  have hcont : ∀ i : ℤ, P (p + i) → memory (p + i) &&& 0xC0 = 0x80 → P (p + i + 1) :=
    fun i hi h => hnext _ hi (ne_zero_of_and_eq h (by decide))
  have h2 : memory p &&& 0x80 ≠ 0 → memory (p + 1) &&& 0xC0 = 0x80 → P (p + 2) := by
    intro h hc1
    rw [show (p : ℤ) + 2 = p + 1 + 1 by omega]
    exact hcont 1 (h1 h) hc1
  have h3 : memory p &&& 0x80 ≠ 0 → memory (p + 1) &&& 0xC0 = 0x80 →
      memory (p + 2) &&& 0xC0 = 0x80 → P (p + 3) := by
    intro h hc1 hc2
    rw [show (p : ℤ) + 3 = p + 2 + 1 by omega]
    exact hcont 2 (h2 h hc1) hc2
  simp only [utf8SequenceLengthTraced, Traced.within_bind, Traced.within_ite,
    Traced.within_andThen, Traced.within_pure, within_maskedByte, value_maskedByte,
    Traced.value_andThen, Bool.and_eq_true, decide_eq_true_eq, Int.add_zero, implies_true,
    true_and, and_true]
  refine ⟨hp, fun hl => ?_⟩
  refine ⟨⟨hp, fun _ => h1 hl⟩, fun _ => ?_⟩
  refine ⟨⟨⟨hp, fun _ => h1 hl⟩, fun hc => h2 hl hc.2⟩, fun _ => ?_⟩
  exact ⟨⟨⟨hp, fun _ => h1 hl⟩, fun hc => h2 hl hc.2⟩, fun hc => h3 hl hc.1.2 hc.2⟩

/-- On the string, this is the length the layout was modelled with. -/
theorem utf8SequenceLengthTraced_value (memory : StringMemory body) {p : ℕ} (hp : p ≤ body.strlen) :
    (utf8SequenceLengthTraced memory.byte p).value = utf8SequenceLength body p := by
  have h0 := memory.holds p hp
  by_cases hz : body.charAt p = 0
  · simp [utf8SequenceLengthTraced, utf8SequenceLength, h0, hz]
  have hlt := CString.lt_strlen_of_charAt_ne_zero hz
  have h1 : memory.byte (p + 1) = body.charAt (p + 1) := memory.holds (p + 1) (by omega)
  by_cases hc1 : body.charAt (p + 1) &&& 0xC0 = 0x80
  swap
  · simp [utf8SequenceLengthTraced, utf8SequenceLength, h0, h1, hc1]
  have hlt1 := CString.lt_strlen_of_charAt_ne_zero (ne_zero_of_and_eq hc1 (by decide))
  have h2 : memory.byte (p + 2) = body.charAt (p + 2) := memory.holds (p + 2) (by omega)
  by_cases hc2 : body.charAt (p + 2) &&& 0xC0 = 0x80
  swap
  · simp [utf8SequenceLengthTraced, utf8SequenceLength, h0, h1, h2, hc1, hc2]
  have hlt2 := CString.lt_strlen_of_charAt_ne_zero (ne_zero_of_and_eq hc2 (by decide))
  have h3 : memory.byte (p + 3) = body.charAt (p + 3) := memory.holds (p + 3) (by omega)
  simp [utf8SequenceLengthTraced, utf8SequenceLength, h0, h1, h2, h3, hc1, hc2]

/-! ### One pass -/

/-- A pass reads the byte at the cursor, and what the lookahead reads from there. -/
theorem layoutStepTraced_within (memory : StringMemory body) {maxLines : ℕ∞} {s : LayoutState}
    (hp : s.position ≤ body.strlen) :
    Traced.Within (InString body) (layoutStepTraced memory.byte maxLines s) := by
  have hin : InString body s.position := ⟨by omega, by omega⟩
  have hseq : Traced.Within (InString body) (utf8SequenceLengthTraced memory.byte s.position) :=
    utf8SequenceLengthTraced_within hin fun _ => memory.next
  cases hb : s.lastSpace <;>
    simp [layoutStepTraced, layoutGuardTraced, hin, hseq, hb]

/-- Two line limits that no layout of the body tells apart: it never counts more lines than the
body has bytes. -/
def SameLimit (body : CString) (maxLines : ℕ∞) (m : ℕ) : Prop :=
  ∀ n ≤ body.strlen, (n : ℕ∞) < maxLines ↔ n < m

theorem SameLimit.natCast (body : CString) (m : ℕ) : SameLimit body m m :=
  fun _ _ => Nat.cast_lt

theorem SameLimit.top (body : CString) : SameLimit body ⊤ (body.strlen + 1) :=
  fun n hn => iff_of_true (ENat.natCast_lt_top n) (Nat.lt_succ_of_le hn)

theorem exists_sameLimit (body : CString) (maxLines : ℕ∞) : ∃ m, SameLimit body maxLines m := by
  cases maxLines with
  | top => exact ⟨_, .top body⟩
  | coe m => exact ⟨m, .natCast body m⟩

theorem layoutStepTraced_value (memory : StringMemory body) {maxLines : ℕ∞} {m : ℕ}
    (hm : SameLimit body maxLines m) {s : LayoutState} {ls : List PresenceLine}
    (h : LayoutInv body s ls) :
    (layoutStepTraced memory.byte maxLines s).value = layoutStep body m s := by
  have hp := h.scanned.le_strlen
  have hchar := memory.holds s.position hp
  have hseq := utf8SequenceLengthTraced_value memory hp
  have hlimit := hm s.lineCount (Nat.le_trans h.lineCount_le hp)
  have hguard : (layoutGuardTraced memory.byte maxLines s).value =
      decide (body.charAt s.position ≠ 0 ∧ s.lineCount < m) := by
    simp [layoutGuardTraced, hchar, hlimit]
  by_cases hg : body.charAt s.position ≠ 0 ∧ s.lineCount < m
  · rw [decide_eq_true hg] at hguard
    cases hb : s.lastSpace <;>
      simp [layoutStepTraced, layoutStep, hguard, hg, hchar, hseq, hb]
  · rw [decide_eq_false hg] at hguard
    rw [layoutStep, if_pos hg]
    simp [layoutStepTraced, hguard]

/-! ### After the loop -/

/-- Only the byte before the cursor is read, and only when there is one: an empty current line
after the first line means that the cursor is past that line. -/
theorem layoutFinishTraced_within {memory : ℤ → UInt8} {maxLines : ℕ∞} {s : LayoutState}
    {ls : List PresenceLine} (h : LayoutInv body s ls) :
    Traced.Within (fun i : ℤ => 0 < s.position ∧ i = s.position - 1)
      (layoutFinishTraced memory maxLines s) := by
  have hpos : s.lineCount ≠ 0 → 0 < s.position := by
    intro hne
    have := h.lineCount_le
    omega
  simp only [layoutFinishTraced, Traced.within_bind, Traced.within_ite, Traced.within_andThen,
    Traced.within_orElse, Traced.within_pure, Traced.within_test, Traced.value_pure,
    Traced.value_orElse, implies_true, true_and, and_true]
  intro _ hnone
  simp only [Bool.or_eq_false_iff, decide_eq_false_iff_not] at hnone
  exact hpos hnone.2

theorem layoutFinishTraced_value (memory : StringMemory body) {maxLines : ℕ∞} {m : ℕ}
    (hm : SameLimit body maxLines m) {s : LayoutState} {ls : List PresenceLine}
    (h : LayoutInv body s ls) :
    (layoutFinishTraced memory.byte maxLines s).value = layoutFinish body m s := by
  have hle := h.lineCount_le
  have hp := h.scanned.le_strlen
  have hlimit := hm s.lineCount (Nat.le_trans hle hp)
  rcases Nat.eq_zero_or_pos s.lineCount with hzero | hpos
  · rw [hzero, Nat.cast_zero] at hlimit
    simp [layoutFinishTraced, layoutFinish, hlimit, hzero]
  · have hcast : (s.position : ℤ) - 1 = (s.position - 1 : ℕ) := by omega
    have hprev : memory.byte (s.position - 1) = body.charAt (s.position - 1) := by
      rw [hcast]
      exact memory.holds _ (by omega)
    simp [layoutFinishTraced, layoutFinish, hlimit, hprev, or_assoc]

/-! ### The loop -/

/-- What the loop variables satisfy at every test of the guard. -/
def LayoutReached (body : CString) (s : LayoutState) : Prop := ∃ ls, LayoutInv body s ls

theorem layoutStart_reached (lines : ℕ → PresenceLine) :
    LayoutReached body (layoutStart lines) :=
  ⟨[], layoutStart_inv lines⟩

theorem LayoutReached.step {m : ℕ} {s s' : LayoutState} (h : LayoutReached body s)
    (hstep : layoutStep body m s = some s') : LayoutReached body s' := by
  obtain ⟨ls, hinv⟩ := h
  exact ⟨_, (layoutStep_inv hinv hstep).1⟩

theorem LayoutReached.stepTraced {memory : StringMemory body} {maxLines : ℕ∞} {s s' : LayoutState}
    (h : LayoutReached body s) (hstep : (layoutStepTraced memory.byte maxLines s).value = some s') :
    LayoutReached body s' := by
  obtain ⟨m, hm⟩ := exists_sameLimit body maxLines
  obtain ⟨ls, hinv⟩ := h
  rw [layoutStepTraced_value memory hm hinv] at hstep
  exact LayoutReached.step ⟨ls, hinv⟩ hstep

/-- The whole loop reads inside the string, however long it has run. -/
theorem layoutLoopTraced_within (memory : StringMemory body) (maxLines : ℕ∞)
    (lines : ℕ → PresenceLine) (fuel : ℕ) :
    Traced.Within (InString body)
      (Traced.loop (layoutStepTraced memory.byte maxLines) fuel (layoutStart lines)) :=
  Traced.loop_within (I := LayoutReached body)
    (fun _ ⟨_, hinv⟩ => layoutStepTraced_within memory hinv.scanned.le_strlen)
    (fun _ _ => LayoutReached.stepTraced) (layoutStart_reached lines) fuel

theorem layoutLoopTraced_reached {memory : StringMemory body} {maxLines : ℕ∞}
    {lines : ℕ → PresenceLine} {fuel : ℕ} {s : LayoutState}
    (h : (Traced.loop (layoutStepTraced memory.byte maxLines) fuel (layoutStart lines)).value =
      some s) : LayoutReached body s :=
  (Traced.loop_ended (I := LayoutReached body) (fun _ _ => LayoutReached.stepTraced)
    (layoutStart_reached lines) h).1

/-- The loop ends, for any limit, in the state the plain loop ends in. -/
theorem layoutLoopTraced_value (memory : StringMemory body) {maxLines : ℕ∞} {m : ℕ}
    (hm : SameLimit body maxLines m) (lines : ℕ → PresenceLine) {fuel : ℕ}
    (hfuel : layoutFuel body < fuel) :
    (Traced.loop (layoutStepTraced memory.byte maxLines) fuel (layoutStart lines)).value =
      some (layoutLoop body lines m) :=
  Traced.loop_value (I := LayoutReached body)
    (fun _ ⟨_, hinv⟩ => layoutStepTraced_value memory hm hinv)
    (fun _ _ => LayoutReached.step) (layoutStart_reached lines) (layoutLoop_exits body lines m)
    hfuel

/-! ### The whole function -/

/-- **With its reads erased, this is `presence_layout_body` as modelled before**, and it returns. -/
theorem presenceLayoutBodyTraced_value (memory : StringMemory body) {maxLines : ℕ∞} {m : ℕ}
    (hm : SameLimit body maxLines m) (lines : Option (ℕ → PresenceLine)) {fuel : ℕ}
    (hfuel : layoutFuel body < fuel) :
    (presenceLayoutBodyTraced fuel (some memory.byte) lines maxLines).value =
      some (presenceLayoutBody (some body) lines m) := by
  have hzero : maxLines = 0 ↔ m = 0 := by
    have h0 := hm 0 (Nat.zero_le _)
    rw [Nat.cast_zero] at h0
    rw [← not_iff_not, ← Ne, ← Ne, ← pos_iff_ne_zero, h0, Nat.pos_iff_ne_zero]
  cases lines with
  | none => rfl
  | some lines =>
    have hloop := layoutLoopTraced_value memory hm lines hfuel
    have hfirst : memory.byte 0 = body.charAt 0 := memory.holds 0 (Nat.zero_le _)
    have hfinish := layoutFinishTraced_value memory hm (layoutLoop_inv body lines m)
    simp [presenceLayoutBodyTraced, presenceLayoutBody, hzero, hfirst, hloop, hfinish,
      apply_ite some]

/-- The whole function reads inside the string, also while its loop is still running. -/
theorem presenceLayoutBodyTraced_within (memory : StringMemory body) (maxLines : ℕ∞)
    (lines : Option (ℕ → PresenceLine)) (fuel : ℕ) :
    Traced.Within (InString body)
      (presenceLayoutBodyTraced fuel (some memory.byte) lines maxLines) := by
  cases lines with
  | none => exact Traced.within_pure _
  | some lines =>
    have hfirst : InString body 0 := ⟨Int.le_refl 0, Int.natCast_nonneg _⟩
    have hloop := layoutLoopTraced_within memory maxLines lines fuel
    simp only [presenceLayoutBodyTraced, Traced.within_ite, Traced.within_pure,
      Traced.within_read_bind, implies_true, true_and]
    intro _
    refine ⟨hfirst, fun _ => Traced.within_bind.mpr ⟨hloop, ?_⟩⟩
    cases hend : (Traced.loop (layoutStepTraced memory.byte maxLines) fuel
      (layoutStart lines)).value with
    | none => exact Traced.within_pure _
    | some s =>
      obtain ⟨ls, hinv⟩ := layoutLoopTraced_reached hend
      have hp := hinv.scanned.le_strlen
      refine Traced.within_bind.mpr ⟨?_, Traced.within_pure _⟩
      intro i hi
      obtain ⟨hpos, rfl⟩ := layoutFinishTraced_within hinv i hi
      constructor <;> omega

/-! ### Safety -/

/-- Past its first byte, a decoded sequence has no NUL, newline, space or tab. -/
theorem sequence_noBreak (memory : StringMemory body) {p i : ℕ} (hp : p ≤ body.strlen)
    (hi : 0 < i) (hlt : i < (utf8SequenceLengthTraced memory.byte p).value) :
    memory.byte (p + i) ≠ 0 ∧ memory.byte (p + i) ≠ newline ∧ ¬ IsBlank (memory.byte (p + i)) := by
  rw [utf8SequenceLengthTraced_value memory hp] at hlt
  have hcont := isContinuation_of_lt_sequence hi hlt
  have hin : p + i ≤ body.strlen := by
    by_contra hgt
    rw [CString.charAt_of_le (by omega)] at hcont
    exact not_isContinuation_zero hcont
  have hbyte : memory.byte (p + i) = body.charAt (p + i) := memory.holds (p + i) hin
  rw [hbyte]
  refine ⟨?_, ?_, ?_⟩
  · intro h0
    exact not_isContinuation_zero (h0 ▸ hcont)
  · intro hnl
    exact not_isContinuation_newline (hnl ▸ hcont)
  · intro hblank
    exact hblank.not_isContinuation hcont

/-- What `presence_layout_body` may do with the memory around a string, under a line limit. -/
structure LayoutSafe (body : CString) (memory : StringMemory body) (maxLines : ℕ∞) : Prop where
  /-- It returns, after a number of passes that the limit has no part in. -/
  ends : ∀ (lines : Option (ℕ → PresenceLine)) (fuel : ℕ), layoutFuel body < fuel →
    ∃ result, (presenceLayoutBodyTraced fuel (some memory.byte) lines maxLines).value = some result
  /-- Every offset read, at any time, is that of a byte of the string or of its terminator. -/
  reads : ∀ (lines : Option (ℕ → PresenceLine)) (fuel : ℕ),
    ∀ i ∈ (presenceLayoutBodyTraced fuel (some memory.byte) lines maxLines).trace,
      0 ≤ i ∧ i ≤ body.strlen
  /-- After the loop only `body[position - 1]` is read, and not with `position` at `0`. -/
  previous : ∀ (lines : ℕ → PresenceLine) (fuel : ℕ) (s : LayoutState),
    (Traced.loop (layoutStepTraced memory.byte maxLines) fuel (layoutStart lines)).value = some s →
    ∀ i ∈ (layoutFinishTraced memory.byte maxLines s).trace, 0 < s.position ∧ i = s.position - 1
  /-- Past its first byte, a decoded sequence has no NUL, newline, space or tab. -/
  sequences : ∀ position ≤ body.strlen, ∀ i, 0 < i →
    i < (utf8SequenceLengthTraced memory.byte position).value →
      memory.byte (position + i) ≠ 0 ∧ memory.byte (position + i) ≠ newline ∧
        ¬ IsBlank (memory.byte (position + i))

/-- **The layout is safe and ends**, on any bytes, in any memory and for any line limit. -/
theorem presenceLayoutBody_safe (body : CString) (memory : StringMemory body) (maxLines : ℕ∞) :
    LayoutSafe body memory maxLines where
  ends lines fuel hfuel := by
    obtain ⟨m, hm⟩ := exists_sameLimit body maxLines
    exact ⟨_, presenceLayoutBodyTraced_value memory hm lines hfuel⟩
  reads lines fuel := presenceLayoutBodyTraced_within memory maxLines lines fuel
  previous lines fuel s hend := by
    obtain ⟨ls, hinv⟩ := layoutLoopTraced_reached hend
    exact layoutFinishTraced_within hinv
  sequences position hp i hi hlt := sequence_noBreak memory hp hi hlt

-- the lookahead of a truncated four-byte sequence stops at the terminator
example : (utf8SequenceLengthTraced (fun i => [0xF0, 0x9F].getD i.toNat 0) 0).trace =
    [0, 0, 0, 0, 1, 2] := by decide

end PresenceDevice
