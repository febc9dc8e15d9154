import Mathlib.Algebra.Order.Floor.Div
import PresenceDevice.BoundedCopy
import PresenceDevice.LayoutPartition
import PresenceDevice.LayoutUnique

/-!
# What the device keeps of a message

A message is kept as three bounded strings and the lines of its body, and shown in pages of three
lines. All of this is a function of the message alone: it does not depend on the message shown
before, whose bytes may still be in the arrays.

## Main definitions

* `AgentMessage.storedSource`, `AgentMessage.storedTitle`, `AgentMessage.storedBody`
* `AgentMessage.lines`, `AgentMessage.pageCount`

## Main results

* `layoutLines_storedBody`: the layout does not depend on the array it is written to
* `length_lines_le`, `pageCount_le`: the arrays are large enough for every message
-/

namespace PresenceDevice

namespace AgentMessage

def storedSource (m : AgentMessage) : CString := storedString (presenceLineChars + 1) m.source

def storedTitle (m : AgentMessage) : CString := storedString (presenceLineChars + 1) m.title

def storedBody (m : AgentMessage) : CString := storedString (presenceBodyMaxBytes + 1) m.body

/-- The lines of the stored body. -/
def lines (m : AgentMessage) : List PresenceLine :=
  layoutLines (presenceLayoutBody (some m.storedBody) (some fun _ => default) presenceMaxBodyLines)

/-- The pages it takes to show them. -/
def pageCount (m : AgentMessage) : ℕ := m.lines.length ⌈/⌉ presenceBodyLinesPerPage

variable (m : AgentMessage)

theorem storedBody_strlen_le : m.storedBody.strlen ≤ presenceBodyMaxBytes :=
  storedString_strlen_le _ _

theorem storedBody_strlen_lt : m.storedBody.strlen < presenceMaxBodyLines :=
  Nat.lt_succ_of_le m.storedBody_strlen_le

theorem map_stored_of_laidOut {ls : List PresenceLine} (h : LaidOut m.storedBody ls) :
    ls.map PresenceLine.stored = ls := by
  have hle := m.storedBody_strlen_le
  simp only [presenceBodyMaxBytes] at hle
  exact h.map_stored (by omega)

/-- The layout of a stored body never runs out of lines, whatever the array held before. -/
theorem laidOut_layoutLines (lines : ℕ → PresenceLine) :
    LaidOut m.storedBody
      (layoutLines (presenceLayoutBody (some m.storedBody) (some lines) presenceMaxBodyLines)) := by
  obtain ⟨ls, hls, heq⟩ := presenceLayoutBody_laidOut m.storedBody lines m.storedBody_strlen_lt
  rw [heq, m.map_stored_of_laidOut hls]
  exact hls

theorem laidOut_lines : LaidOut m.storedBody m.lines := m.laidOut_layoutLines _

/-- **The lines do not depend on the array.** -/
theorem layoutLines_storedBody (lines : ℕ → PresenceLine) :
    layoutLines (presenceLayoutBody (some m.storedBody) (some lines) presenceMaxBodyLines)
      = m.lines :=
  (m.laidOut_layoutLines lines).unique m.laidOut_lines

/-! ### Sizes -/

theorem length_lines_pos : 0 < m.lines.length := List.length_pos_iff.mpr m.laidOut_lines.ne_nil

theorem length_lines_le : m.lines.length ≤ presenceMaxBodyLines :=
  m.laidOut_lines.length_le.trans (Nat.succ_le_succ m.storedBody_strlen_le)

/-- The page count as `presence_show_message` computes it. -/
theorem pageCount_eq :
    m.pageCount = (m.lines.length + presenceBodyLinesPerPage - 1) / presenceBodyLinesPerPage :=
  Nat.ceilDiv_eq_add_pred_div _ _

theorem pageCount_pos : 0 < m.pageCount := by
  have := m.length_lines_pos
  rw [pageCount_eq]
  simp only [presenceBodyLinesPerPage]
  omega

theorem pageCount_le : m.pageCount ≤ presenceMaxPageCount := by
  rw [pageCount_eq]
  exact Nat.div_le_div_right (Nat.sub_le_sub_right
    (Nat.add_le_add_right m.length_lines_le _) _)

/-- Line `i` is on page `i / 3`. -/
theorem div_lt_pageCount {i : ℕ} (hi : i < m.lines.length) :
    i / presenceBodyLinesPerPage < m.pageCount := by
  rw [pageCount_eq]
  simp only [presenceBodyLinesPerPage] at *
  omega

end AgentMessage

end PresenceDevice
