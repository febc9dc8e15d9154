import Mathlib.Data.Fin.VecNotation

/-!
# The 5x7 font

`font.c`: each glyph is five columns wide, one byte per column, bits 0 to 6 from top to bottom.
Lowercase letters share the uppercase glyphs, and a character outside the table has no glyph.
-/

namespace PresenceDevice

/-- `GLYPH_WIDTH`: columns per glyph. -/
def glyphWidth : ℕ := 5

abbrev Glyph := Fin glyphWidth → UInt8

def fontUppercase : Fin 26 → Glyph := ![
  ![0x7E, 0x11, 0x11, 0x11, 0x7E],
  ![0x7F, 0x49, 0x49, 0x49, 0x36],
  ![0x3E, 0x41, 0x41, 0x41, 0x22],
  ![0x7F, 0x41, 0x41, 0x22, 0x1C],
  ![0x7F, 0x49, 0x49, 0x49, 0x41],
  ![0x7F, 0x09, 0x09, 0x09, 0x01],
  ![0x3E, 0x41, 0x49, 0x49, 0x7A],
  ![0x7F, 0x08, 0x08, 0x08, 0x7F],
  ![0x00, 0x41, 0x7F, 0x41, 0x00],
  ![0x20, 0x40, 0x41, 0x3F, 0x01],
  ![0x7F, 0x08, 0x14, 0x22, 0x41],
  ![0x7F, 0x40, 0x40, 0x40, 0x40],
  ![0x7F, 0x02, 0x0C, 0x02, 0x7F],
  ![0x7F, 0x04, 0x08, 0x10, 0x7F],
  ![0x3E, 0x41, 0x41, 0x41, 0x3E],
  ![0x7F, 0x09, 0x09, 0x09, 0x06],
  ![0x3E, 0x41, 0x51, 0x21, 0x5E],
  ![0x7F, 0x09, 0x19, 0x29, 0x46],
  ![0x46, 0x49, 0x49, 0x49, 0x31],
  ![0x01, 0x01, 0x7F, 0x01, 0x01],
  ![0x3F, 0x40, 0x40, 0x40, 0x3F],
  ![0x1F, 0x20, 0x40, 0x20, 0x1F],
  ![0x7F, 0x20, 0x18, 0x20, 0x7F],
  ![0x63, 0x14, 0x08, 0x14, 0x63],
  ![0x07, 0x08, 0x70, 0x08, 0x07],
  ![0x61, 0x51, 0x49, 0x45, 0x43]]

def fontDigits : Fin 10 → Glyph := ![
  ![0x3E, 0x51, 0x49, 0x45, 0x3E],
  ![0x00, 0x42, 0x7F, 0x40, 0x00],
  ![0x42, 0x61, 0x51, 0x49, 0x46],
  ![0x21, 0x41, 0x45, 0x4B, 0x31],
  ![0x18, 0x14, 0x12, 0x7F, 0x10],
  ![0x27, 0x45, 0x45, 0x45, 0x39],
  ![0x3C, 0x4A, 0x49, 0x49, 0x30],
  ![0x01, 0x71, 0x09, 0x05, 0x03],
  ![0x36, 0x49, 0x49, 0x49, 0x36],
  ![0x06, 0x49, 0x49, 0x29, 0x1E]]

/-- Space, colon, hyphen, period, slash. -/
def fontSymbols : Fin 5 → Glyph := ![
  ![0x00, 0x00, 0x00, 0x00, 0x00],
  ![0x00, 0x36, 0x36, 0x00, 0x00],
  ![0x08, 0x08, 0x08, 0x08, 0x08],
  ![0x00, 0x60, 0x60, 0x00, 0x00],
  ![0x20, 0x10, 0x08, 0x04, 0x02]]

/-- `font_get_glyph`; `none` is the `NULL` of the default case. -/
def fontGetGlyph (character : UInt8) : Option Glyph :=
  if h : 'A'.toNat ≤ character.toNat ∧ character.toNat ≤ 'Z'.toNat then
    some (fontUppercase ⟨character.toNat - 'A'.toNat, by
      have : character.toNat ≤ 90 := h.2
      exact show character.toNat - 65 < 26 by omega⟩)
  else if h : 'a'.toNat ≤ character.toNat ∧ character.toNat ≤ 'z'.toNat then
    some (fontUppercase ⟨character.toNat - 'a'.toNat, by
      have : character.toNat ≤ 122 := h.2
      exact show character.toNat - 97 < 26 by omega⟩)
  else if h : '0'.toNat ≤ character.toNat ∧ character.toNat ≤ '9'.toNat then
    some (fontDigits ⟨character.toNat - '0'.toNat, by
      have : character.toNat ≤ 57 := h.2
      exact show character.toNat - 48 < 10 by omega⟩)
  else if character = ' '.toUInt8 then some (fontSymbols 0)
  else if character = ':'.toUInt8 then some (fontSymbols 1)
  else if character = '-'.toUInt8 then some (fontSymbols 2)
  else if character = '.'.toUInt8 then some (fontSymbols 3)
  else if character = '/'.toUInt8 then some (fontSymbols 4)
  else none

end PresenceDevice
