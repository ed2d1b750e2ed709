import Lemonbuddy.Color.Parse

/-!
# The render engine's data

`class bar` (`components/bar.cpp`) draws the status line into a pixmap and keeps a
table of clickable regions. This module holds what its handlers read and write:

* `Settings`, the fixed part of `bar_settings`, of the border sizes in `m_borders`,
  and of `tray_settings` that a render pass reads;
* `Event`, the signals the markup parser emits into the bar, one constructor per
  callback of `g_signals::parser`;
* `ActionBlock`, one clickable region (`action_block`);
* `Pixmap`, the pixmap `m_pixmap` as a column array, with the three operations the
  bar applies to it: a full-height paint of a column range (`paint`, for fills,
  glyphs and the horizontal stripes of lines and borders), and `copyArea`;
* `Bar`, the mutable render state of one bar.

The pixmap is a column array, as the drawing is: every copy and every full fill
spans the whole height. A column shows a full-height content (`Base`: a fill colour,
or one column of a glyph) under the horizontal stripes drawn at fixed rows on top of
it: the over- and underline of `draw_lines` and the top and bottom borders. Glyph ink
is abstracted to the column it occupies; its colour and vertical position are the
font manager's.

`components/types.hpp` and `components/bar.hpp`, which declare `alignment`,
`mousebtn`, `attribute`, `gc` and `action_block`, are not among the sources; their
values are modelled from the spec and from their uses in `bar.cpp`.
-/

namespace Lemonbuddy

/-- `alignment`: the zone content is aligned to. -/
inductive Alignment
  | none
  | left
  | center
  | right
  deriving DecidableEq, Repr

/-- Modelled from the spec: `mousebtn`, the trigger button of a region, as its X
button number; `NONE` is 0 and `LEFT` is 1. `bar::handle` casts the button number of
the X event to it. -/
structure Mousebtn where
  code : Nat
  deriving DecidableEq, Repr

namespace Mousebtn

/-- `mousebtn::NONE`. -/
def none : Mousebtn := ⟨0⟩

/-- `mousebtn::LEFT`. -/
def left : Mousebtn := ⟨1⟩

end Mousebtn

/-- Modelled from the spec: `attribute`, a text decoration, as its bit in the
attribute bit-set `m_attributes`. -/
structure Attribute where
  bit : Nat
  deriving DecidableEq, Repr

namespace Attribute

/-- `attribute::o`, the overline. -/
def o : Attribute := ⟨1⟩

/-- `attribute::u`, the underline. -/
def u : Attribute := ⟨2⟩

end Attribute

/-- `gc`: the eight graphics contexts `bootstrap` creates, `gc(1)` to `gc(8)`. -/
inductive Gc
  | bg
  | fg
  | ol
  | ul
  | bt
  | bb
  | bl
  | br
  deriving DecidableEq, Repr

/-- `action_block`: a clickable region, with its zone, trigger button, pixel interval
`[startX, endX)`, command, and whether it is still open. A new block's `end_x` is 0. -/
structure ActionBlock where
  align : Alignment
  button : Mousebtn
  startX : Int
  endX : Int
  command : List Char
  active : Bool
  deriving DecidableEq, Repr

/-- The parser's callbacks (`g_signals::parser`), each one event of a render pass. -/
inductive Event
  | alignmentChange (align : Alignment)
  | attributeSet (attr : Attribute)
  | attributeUnset (attr : Attribute)
  | attributeToggle (attr : Attribute)
  | actionBlockOpen (btn : Mousebtn) (cmd : List Char)
  | actionBlockClose (btn : Mousebtn)
  | colorChange (gc : Gc) (color : Color)
  | fontChange (index : Int)
  | pixelOffset (px : Int)
  | asciiTextWrite (ch : UInt16)
  | unicodeTextWrite (ch : UInt16)
  | stringWrite (text : List UInt8)
  deriving Repr

/-- What a render pass reads of `m_bar`, `m_borders` and `m_tray`. -/
structure Settings where
  width : Int
  lineheight : Int
  borderTop : Int
  borderBottom : Int
  borderLeft : Int
  borderRight : Int
  trayAlign : Alignment
  trayWidth : Int
  traySpacing : Int
  deriving DecidableEq, Repr

/-- The font manager as `draw_character` uses it: for the preferred font and a
character, the width of the glyph `match_char` finds, or `none` when no loaded font
has it. -/
structure Fonts where
  charWidth : Int → UInt16 → Option Nat

/-! ### The pixmap -/

/-- The full-height content of a pixmap column. -/
inductive Base
  | fill (color : UInt32)
  | glyph (ch : UInt16) (col : Nat)
  deriving DecidableEq, Repr

/-- One column of the pixmap: its full-height content and the stripes over it. -/
structure Cell where
  base : Base
  overline : Option UInt32
  underline : Option UInt32
  topBorder : Option UInt32
  bottomBorder : Option UInt32
  deriving DecidableEq, Repr

/-- A column filled over its whole height. -/
def Cell.ofFill (color : UInt32) : Cell := ⟨.fill color, none, none, none, none⟩

/-- `m_pixmap`, column by column; only the columns `0 ≤ c < width` exist. -/
def Pixmap := Int → Cell

namespace Pixmap

/-- Every drawing operation of the bar on the columns `[x, x + w)`, each column
changed by `f`, clipped to the pixmap. -/
def paint (width : Int) (p : Pixmap) (x w : Int) (f : Int → Cell → Cell) : Pixmap :=
  fun c => if 0 ≤ c ∧ c < width ∧ x ≤ c ∧ c < x + w then f c (p c) else p c

/-- `draw_util::fill` over the full height of `[x, x + w)`. -/
def fill (width : Int) (p : Pixmap) (color : UInt32) (x w : Int) : Pixmap :=
  paint width p x w fun _ _ => Cell.ofFill color

/-- A glyph drawn at `x`, `w` columns wide: its columns replace what was under it. -/
def drawGlyph (width : Int) (p : Pixmap) (ch : UInt16) (x w : Int) : Pixmap :=
  paint width p x w fun c cell => { cell with base := .glyph ch (c - x).toNat }

/-- `copy_area` of the full height from `[src, src + w)` to `[dst, dst + w)` of the same
pixmap, read before any column is written. A column whose source or destination is
outside the pixmap is not copied. -/
def copyArea (width : Int) (p : Pixmap) (src dst w : Int) : Pixmap :=
  fun c =>
    if 0 ≤ c ∧ c < width ∧ dst ≤ c ∧ c < dst + w ∧ 0 ≤ c - dst + src ∧ c - dst + src < width
    then p (c - dst + src) else p c

variable {width : Int} {p : Pixmap} {x w : Int} {f : Int → Cell → Cell} {c : Int}

theorem paint_of_mem (h0 : 0 ≤ c) (hw : c < width) (hx : x ≤ c) (hxw : c < x + w) :
    paint width p x w f c = f c (p c) := by
  simp [paint, h0, hw, hx, hxw]

theorem paint_of_not_mem (h : c < x ∨ x + w ≤ c) : paint width p x w f c = p c := by
  unfold paint; split_ifs with hc
  · omega
  · rfl

theorem paint_of_outside (h : c < 0 ∨ width ≤ c) : paint width p x w f c = p c := by
  unfold paint; split_ifs with hc
  · omega
  · rfl

theorem copyArea_of_mem {src dst : Int} (h0 : 0 ≤ c) (hw : c < width) (hd : dst ≤ c)
    (hdw : c < dst + w) (hs0 : 0 ≤ c - dst + src) (hsw : c - dst + src < width) :
    copyArea width p src dst w c = p (c - dst + src) := by
  simp [copyArea, h0, hw, hd, hdw, hs0, hsw]

theorem copyArea_of_not_mem {src dst : Int} (h : c < dst ∨ dst + w ≤ c) :
    copyArea width p src dst w c = p c := by
  unfold copyArea; split_ifs with hc
  · omega
  · rfl

end Pixmap

/-! ### The bar -/

/-- The render state of `class bar`: the current zone `m_bar.align`, the cursor
`m_xpos`, the attribute bit-set `m_attributes`, the region table `m_actions`, the
pixmap, the foreground of every graphics context, the font manager's preferred font
and text colour, the last content drawn `m_prevdata`, the tray's slot count, and the
window's contents after the last flush. -/
structure Bar where
  align : Alignment
  xpos : Int
  attributes : Nat
  actions : List ActionBlock
  pixmap : Pixmap
  gcontexts : Gc → UInt32
  preferredFont : Int
  fontColor : UInt32
  prevdata : List Char
  slots : Nat
  window : Pixmap

/-- The colours `bootstrap` reads from the configuration. -/
structure BarColors where
  background : Color
  foreground : Color
  linecolor : Color
  borderTop : Color
  borderBottom : Color
  borderLeft : Color
  borderRight : Color

/-- The foreground `bootstrap` gives each graphics context: background, foreground,
the line colour twice, then the four border colours. -/
def BarColors.gcontext (colors : BarColors) : Gc → UInt32
  | .bg => colors.background.value
  | .fg => colors.foreground.value
  | .ol => colors.linecolor.value
  | .ul => colors.linecolor.value
  | .bt => colors.borderTop.value
  | .bb => colors.borderBottom.value
  | .bl => colors.borderLeft.value
  | .br => colors.borderRight.value

/-- The render state `bootstrap` leaves: the configured colours in the graphics
contexts and in the font manager, the font manager's default preferred font, no
content drawn yet and no tray slot. The pixmap's first contents are unspecified. -/
def Bar.bootstrap (colors : BarColors) (defaultFont : Int) (pixmap : Pixmap) : Bar where
  align := .left
  xpos := 0
  attributes := 0
  actions := []
  pixmap := pixmap
  gcontexts := colors.gcontext
  preferredFont := defaultFont
  fontColor := colors.foreground.value
  prevdata := []
  slots := 0
  window := pixmap

end Lemonbuddy
