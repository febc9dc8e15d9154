import Mathlib.Data.List.FinRange
import PresenceDevice.Font
import PresenceDevice.Library.CString

/-!
# The OLED driver

`oled.c`: a framebuffer of 128 columns by 8 pages, drawing into it, and its transfer to the
SH1106 over SPI. Byte `page * 128 + column` of the buffer is the eight-pixel column `column` of
the page.

The panel is the command interpreter that the driver's comments describe: with the D/C line low a
byte sets the page or one nibble of the column, with the line high it is stored at the current
address and the column advances. A failed SPI transfer aborts the program, so transfers are taken
to succeed.

## Main definitions

* `Frame`, `oledClear`, `oledDrawChar`, `oledDrawText`: the framebuffer and drawing
* `Sh1106`, `oledFlush`: the panel and the transfer
-/

namespace PresenceDevice

/-- `OLED_WIDTH`. -/
def oledWidth : ℕ := 128

/-- `OLED_HEIGHT`. -/
def oledHeight : ℕ := 64

/-- `OLED_PAGES`: bands of eight pixels. -/
def oledPages : ℕ := oledHeight / 8

/-- The contents of `oled_buffer`. -/
abbrev Frame := Fin (oledWidth * oledPages) → UInt8

/-! ### Drawing -/

/-- `oled_clear`, as the contents it leaves. -/
def oledClear : Frame := fun _ => 0

theorem draw_index_lt {x page column : ℕ}
    (h : ¬ (page ≥ oledPages ∨ x + glyphWidth > oledWidth)) (hc : column < glyphWidth) :
    page * oledWidth + x + column < oledWidth * oledPages := by
  simp only [oledPages, oledHeight, oledWidth, glyphWidth] at *
  omega

/-- `oled_draw_char`. -/
def oledDrawChar (x page : ℕ) (glyph : Glyph) (oledBuffer : Frame) : Frame :=
  if h : page ≥ oledPages ∨ x + glyphWidth > oledWidth then oledBuffer
  else
    (List.finRange glyphWidth).foldl (fun buffer (column : Fin glyphWidth) =>
      Function.update buffer ⟨page * oledWidth + x + column, draw_index_lt h column.isLt⟩
        (glyph column)) oledBuffer

/-- The loop of `oled_draw_text`, over what is left of the text; `x` is an 8-bit variable. -/
def oledDrawTextFrom (x page : ℕ) : List UInt8 → Frame → Frame
  | [], oledBuffer => oledBuffer
  | character :: rest, oledBuffer =>
    let oledBuffer :=
      (fontGetGlyph character).elim oledBuffer fun glyph => oledDrawChar x page glyph oledBuffer
    if x + glyphWidth > oledWidth then oledBuffer
    else oledDrawTextFrom ((x + glyphWidth + 1) % 256) page rest oledBuffer

/-- `oled_draw_text`. -/
def oledDrawText (x page : ℕ) (text : CString) (oledBuffer : Frame) : Frame :=
  oledDrawTextFrom x page text.bytes oledBuffer

/-! ### The panel -/

/-- The SH1106: its RAM by page and column, the address it writes next, and the D/C line. -/
structure Sh1106 where
  ram : ℕ → ℕ → UInt8
  page : ℕ
  column : ℕ
  dataLine : Bool

/-- One byte received over SPI. -/
def Sh1106.receive (panel : Sh1106) (byte : UInt8) : Sh1106 :=
  if panel.dataLine then
    { panel with
      ram := Function.update panel.ram panel.page
        (Function.update (panel.ram panel.page) panel.column byte)
      column := panel.column + 1 }
  else if byte &&& 0xF0 = 0xB0 then { panel with page := (byte &&& 0x0F).toNat }
  else if byte &&& 0xF0 = 0x00 then
    { panel with column := panel.column / 16 * 16 + (byte &&& 0x0F).toNat }
  else if byte &&& 0xF0 = 0x10 then
    { panel with column := (byte &&& 0x0F).toNat * 16 + panel.column % 16 }
  else panel

/-- `spi_device_transmit`. -/
def Sh1106.transmit (panel : Sh1106) (bytes : List UInt8) : Sh1106 := bytes.foldl receive panel

/-- `oled_send_command`. -/
def oledSendCommand (command : UInt8) (panel : Sh1106) : Sh1106 :=
  { panel with dataLine := false }.transmit [command]

/-- `oled_send_data`. -/
def oledSendData (data : List UInt8) (panel : Sh1106) : Sh1106 :=
  { panel with dataLine := true }.transmit data

/-- `oled_write_page`. -/
def oledWritePage (page : UInt8) (data : List UInt8) (panel : Sh1106) : Sh1106 :=
  let panel := oledSendCommand (0xB0 ||| page) panel
  let panel := oledSendCommand 0x02 panel
  let panel := oledSendCommand 0x10 panel
  oledSendData data panel

/-- The driver's state: the framebuffer, the panel, and the frame the last `oled_flush` sent. -/
structure Oled where
  oledBuffer : Frame
  panel : Sh1106
  flushed : Option Frame

/-- The driver at power-up: an empty framebuffer, a panel with nothing in its RAM. -/
def oledPowerUp : Oled := ⟨oledClear, ⟨fun _ _ => 0, 0, 0, false⟩, none⟩

theorem page_index_lt (page : Fin oledPages) (column : Fin oledWidth) :
    (page : ℕ) * oledWidth + column < oledWidth * oledPages := by
  have hp : (page : ℕ) < 8 := page.isLt
  have hc : (column : ℕ) < 128 := column.isLt
  simp only [oledPages, oledHeight, oledWidth]
  omega

/-- The 128 bytes from `&oled_buffer[page * OLED_WIDTH]` on. -/
def pageBytes (oledBuffer : Frame) (page : Fin oledPages) : List UInt8 :=
  (List.finRange oledWidth).map fun (column : Fin oledWidth) =>
    oledBuffer ⟨page * oledWidth + column, page_index_lt page column⟩

/-- `oled_flush`. -/
def oledFlush (oled : Oled) : Oled where
  oledBuffer := oled.oledBuffer
  panel := (List.finRange oledPages).foldl (fun panel (page : Fin oledPages) =>
    oledWritePage (UInt8.ofNat page) (pageBytes oled.oledBuffer page) panel) oled.panel
  flushed := some oled.oledBuffer

end PresenceDevice
