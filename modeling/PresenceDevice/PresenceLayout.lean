import Mathlib.Algebra.Group.Nat.Defs
import Mathlib.Logic.Function.Basic
import PresenceDevice.Library.CString
import PresenceDevice.Library.Loop

/-!
# Laying out a message body

`presence_layout.c` cuts a body into display lines of at most 21 bytes. A line is a start offset
and a length into the body; the loop below walks the body with a cursor `position`, remembers the
last blank it passed on the current line, and on overflow either ends the line there and moves
the cursor *back* behind that blank, or splits the word.

The sentinel `SIZE_MAX` of `last_space` is `none`. The result is the array of lines and the
number of them that were written.

## Main definitions

* `utf8SequenceLength`, `layoutStep`, `presenceLayoutBody`: the functions of the source
* `layoutLines`: the lines returned, as a list
-/

namespace PresenceDevice

/-- `PRESENCE_LINE_CHARS`. -/
def presenceLineChars : ℕ := 21

/-- `PRESENCE_BODY_LINES_PER_PAGE`. -/
def presenceBodyLinesPerPage : ℕ := 3

/-- `PRESENCE_BODY_MAX_BYTES`. -/
def presenceBodyMaxBytes : ℕ := 511

/-- `PRESENCE_MAX_BODY_LINES`. -/
def presenceMaxBodyLines : ℕ := presenceBodyMaxBytes + 1

/-- `PresenceLine`: a 16-bit start and an 8-bit length. -/
structure PresenceLine where
  start : ℕ
  length : ℕ
  deriving DecidableEq, Inhabited

/-- The compound literal `(PresenceLine) { .start = (uint16_t) start, .length = (uint8_t) length }`,
with its casts. -/
def PresenceLine.cast (start length : ℕ) : PresenceLine :=
  ⟨start % 2 ^ 16, length % 2 ^ 8⟩

/-- `utf8_sequence_length` at `&body[position]`. -/
def utf8SequenceLength (body : CString) (position : ℕ) : ℕ :=
  let text := fun i => body.charAt (position + i)
  if text 0 &&& 0x80 = 0 then 1
  else if text 0 &&& 0xE0 = 0xC0 ∧ text 1 &&& 0xC0 = 0x80 then 2
  else if text 0 &&& 0xF0 = 0xE0 ∧ text 1 &&& 0xC0 = 0x80 ∧ text 2 &&& 0xC0 = 0x80 then 3
  else if text 0 &&& 0xF8 = 0xF0 ∧ text 1 &&& 0xC0 = 0x80 ∧ text 2 &&& 0xC0 = 0x80 ∧
      text 3 &&& 0xC0 = 0x80 then 4
  else 1

/-- The variables of the loop, and the array it fills. -/
structure LayoutState where
  lines : ℕ → PresenceLine
  lineCount : ℕ
  lineStart : ℕ
  lineLength : ℕ
  position : ℕ
  lastSpace : Option ℕ

/-- `lines[line_count++] = (PresenceLine) { ... }`. -/
def LayoutState.emit (s : LayoutState) (start length : ℕ) : LayoutState :=
  { s with
    lines := Function.update s.lines s.lineCount (PresenceLine.cast start length)
    lineCount := s.lineCount + 1 }

/-- A blank that the layout may drop at a line break. -/
def IsBlank (character : UInt8) : Prop := character = ' '.toUInt8 ∨ character = '\t'.toUInt8

instance : DecidablePred IsBlank := fun _ => inferInstanceAs (Decidable (_ ∨ _))

/-- One pass of the loop of `presence_layout_body`; `none` once its guard fails. -/
def layoutStep (body : CString) (maxLines : ℕ) (s : LayoutState) : Option LayoutState :=
  if ¬ (body.charAt s.position ≠ 0 ∧ s.lineCount < maxLines) then none
  else
    let character := body.charAt s.position
    if character = '\n'.toUInt8 then
      some { s.emit s.lineStart s.lineLength with
        position := s.position + 1
        lineStart := s.position + 1
        lineLength := 0
        lastSpace := none }
    else
      let sequenceLength := utf8SequenceLength body s.position
      if s.lineLength > 0 ∧ s.lineLength + sequenceLength > presenceLineChars then
        match s.lastSpace with
        | some lastSpace =>
          some { s.emit s.lineStart (lastSpace - s.lineStart) with
            position := lastSpace + 1
            lineStart := lastSpace + 1
            lineLength := 0
            lastSpace := none }
        | none =>
          some { s.emit s.lineStart s.lineLength with
            lineStart := s.position
            lineLength := 0
            lastSpace := none }
      else if IsBlank character ∧ s.lineLength = 0 then
        some { s with position := s.position + 1, lineStart := s.position + 1 }
      else
        some { s with
          lastSpace := if IsBlank character then some s.position else s.lastSpace
          lineLength := s.lineLength + sequenceLength
          position := s.position + sequenceLength }

/-- The variables as the loop finds them. -/
def layoutStart (lines : ℕ → PresenceLine) : LayoutState := ⟨lines, 0, 0, 0, 0, none⟩

/-- Enough passes for any body: see `layoutLoop_exits`. -/
def layoutFuel (body : CString) : ℕ := (presenceLineChars + 1) * body.strlen

/-- The loop of `presence_layout_body`, run to its end. -/
def layoutLoop (body : CString) (lines : ℕ → PresenceLine) (maxLines : ℕ) : LayoutState :=
  Loop.run (layoutStep body maxLines) (layoutFuel body) (layoutStart lines)

/-- The line after the loop, when it is due. -/
def layoutFinish (body : CString) (maxLines : ℕ) (s : LayoutState) : LayoutState :=
  if s.lineCount < maxLines ∧ (s.lineLength > 0 ∨ s.lineCount = 0 ∨
      body.charAt (s.position - 1) = '\n'.toUInt8) then
    s.emit s.lineStart s.lineLength
  else s

/-- `presence_layout_body`: the array it leaves behind and the count it returns. `none` stands
for a `NULL` pointer. -/
def presenceLayoutBody (body : Option CString) (lines : Option (ℕ → PresenceLine))
    (maxLines : ℕ) : Option (ℕ → PresenceLine) × ℕ :=
  match lines with
  | none => (none, 0)
  | some lines =>
    if maxLines = 0 then (some lines, 0)
    else
      match body with
      | none => (some (Function.update lines 0 (PresenceLine.cast 0 0)), 1)
      | some body =>
        if body.charAt 0 = 0 then (some (Function.update lines 0 (PresenceLine.cast 0 0)), 1)
        else
          let s := layoutFinish body maxLines (layoutLoop body lines maxLines)
          (some s.lines, s.lineCount)

/-- The lines returned, as a list. -/
def layoutLines (result : Option (ℕ → PresenceLine) × ℕ) : List PresenceLine :=
  match result.1 with
  | none => []
  | some lines => (List.range result.2).map lines

end PresenceDevice
