import Lemonbuddy.Render.Basic

/-!
# The render engine

The handlers of `class bar` (`components/bar.cpp`), each a function on `Bar`, and
the render pass `bar::parse` that feeds them the parser's events.

The one mechanism every drawing handler shares is `bar::draw_shift(x, chr_width)`. In
the left zone content is drawn where the cursor is. In the right zone the content
drawn so far, `m_xpos` columns ending at the bar's right edge, is copied `chr_width`
columns to the left, and the new glyph goes at the right border. In the centre zone
the content is copied to start `floor((m_xpos + chr_width) / 2)` columns left of the
middle `base_x`, and the new glyph goes behind it. Either way the rest of the bar is
then cleared, and the closed regions of the zone are moved left with their content:
by `chr_width` on the right, by `chr_width / 2` in the centre. `drawShift` is made
of `shiftCopy` (the copy), `shiftColumn` (the column it returns), `shiftPixmap` (the
copy and the fill) and `translateActions` (the regions), so that proofs about regions
never see the pixmap.

A render pass (`renderPass`) resets the cursor, clears the action table and the
pixmap, reserves the tray's width on the left, runs the events, shifts the right zone
for a tray on the right, draws the borders and flushes. `parse` skips it when the
content is unchanged and no redraw is forced; `onTrayReport` reruns it with the last
content when the slot count changes. `handleButtonPress` is the hit test of
`bar::handle(button_press)`.

C++ `int` arithmetic is modelled by `Int`: positions and widths of a bar stay far
from the limits of `int`. Division is C++'s truncating `/`, `Int.tdiv`.
-/

namespace Lemonbuddy

/-- The cursor `m_xpos` a zone starts at, as `on_alignment_change` sets it. -/
def zoneOrigin (S : Settings) (align : Alignment) : Int :=
  if align = .left then S.borderLeft else if align = .right then S.borderRight else 0

/-- `base_x` of `draw_shift` and `on_action_block_close`: the middle of the bar,
`(width - border_right) / 2 + border_left`. -/
def centerBase (S : Settings) : Int :=
  (S.width - S.borderRight).tdiv 2 + S.borderLeft

/-- The width the tray reserves: `(tray.width + tray.spacing) * slots + tray.spacing`. -/
def trayReservation (S : Settings) (slots : Nat) : Int :=
  (S.trayWidth + S.traySpacing) * slots + S.traySpacing

/-- `string_util::replace_all(cmd, ":", "\\:")`: every colon escaped. -/
def escapeColons (cmd : List Char) : List Char :=
  cmd.flatMap fun c => if c = ':' then ['\\', ':'] else [c]

/-- The `uint16_t` a `char` of the text becomes in `draw_textstring`: `char` is signed,
so bytes from 128 up are sign-extended. -/
def charToUInt16 (b : UInt8) : UInt16 :=
  if b.toNat < 128 then UInt16.ofNat b.toNat else UInt16.ofNat (b.toNat + 0xFF00)

/-- The first element satisfying `p` replaced by `f` of it. -/
def modifyFirst {α : Type} (p : α → Bool) (f : α → α) : List α → List α
  | [] => []
  | a :: as => if p a then f a :: as else a :: modifyFirst p f as

/-- The last element satisfying `p` replaced by `f` of it: the reverse scan
`for (i = size; i > 0; i--)` of `on_action_block_close`. -/
def modifyLast {α : Type} (p : α → Bool) (f : α → α) (l : List α) : List α :=
  (modifyFirst p f l.reverse).reverse

section Handlers

variable (S : Settings) (F : Fonts)

/-! ### `draw_shift` -/

/-- The copy of `bar::draw_shift(x, chr_width)`: in the centre and on the right, the
zone's content moved left to make room for `chrWidth` more columns. -/
def shiftCopy (align : Alignment) (p : Pixmap) (x chrWidth : Int) : Pixmap :=
  if align = .center then
    Pixmap.copyArea S.width p (centerBase S - x.tdiv 2) (centerBase S - (x + chrWidth).tdiv 2) x
  else if align = .right then
    Pixmap.copyArea S.width p (S.width - x) (S.width - x - chrWidth) x
  else p

/-- The column `bar::draw_shift(x, chr_width)` returns, where the new content goes:
behind the centred content in the centre, at the right border on the right, at the
cursor on the left. -/
def shiftColumn (align : Alignment) (x chrWidth : Int) : Int :=
  if align = .center then centerBase S - (x + chrWidth).tdiv 2 + x
  else if align = .right then S.width - chrWidth - S.borderRight
  else x

/-- The pixmap half of `bar::draw_shift(x, chr_width)`: the copy, then the background
from the returned column to the end of the bar. -/
def shiftPixmap (align : Alignment) (p : Pixmap) (bg : UInt32) (x chrWidth : Int) : Pixmap :=
  let x' := shiftColumn S align x chrWidth
  Pixmap.fill S.width (shiftCopy S align p x chrWidth) bg x' (S.width - x')

/-- How far `draw_shift` moves the closed regions of the zone: `delta /= 2` in the
centre. -/
def shiftDelta (align : Alignment) (chrWidth : Int) : Int :=
  if align = .center then chrWidth.tdiv 2 else chrWidth

/-- The region half of `bar::draw_shift`: outside the left zone, every closed region
of the current zone moves left by `delta`. -/
def translateActions (align : Alignment) (delta : Int) (actions : List ActionBlock) :
    List ActionBlock :=
  if align = .left then actions
  else actions.map fun a =>
    if a.active ∨ a.align ≠ align then a
    else { a with startX := a.startX - delta, endX := a.endX - delta }

/-- `bar::draw_shift(x, chr_width)`: the new state and the column it returns. -/
def drawShift (b : Bar) (x chrWidth : Int) : Bar × Int :=
  ({ b with pixmap := shiftPixmap S b.align b.pixmap (b.gcontexts .bg) x chrWidth,
            actions := translateActions b.align (shiftDelta b.align chrWidth) b.actions },
    shiftColumn S b.align x chrWidth)

section DrawShift

variable (b : Bar) (x chrWidth : Int)

@[simp] theorem drawShift_align : (drawShift S b x chrWidth).1.align = b.align := rfl
@[simp] theorem drawShift_xpos : (drawShift S b x chrWidth).1.xpos = b.xpos := rfl
@[simp] theorem drawShift_attributes : (drawShift S b x chrWidth).1.attributes = b.attributes := rfl
@[simp] theorem drawShift_gcontexts : (drawShift S b x chrWidth).1.gcontexts = b.gcontexts := rfl
@[simp] theorem drawShift_preferredFont :
    (drawShift S b x chrWidth).1.preferredFont = b.preferredFont := rfl
@[simp] theorem drawShift_fontColor : (drawShift S b x chrWidth).1.fontColor = b.fontColor := rfl
@[simp] theorem drawShift_slots : (drawShift S b x chrWidth).1.slots = b.slots := rfl
@[simp] theorem drawShift_prevdata : (drawShift S b x chrWidth).1.prevdata = b.prevdata := rfl
@[simp] theorem drawShift_actions : (drawShift S b x chrWidth).1.actions =
    translateActions b.align (shiftDelta b.align chrWidth) b.actions := rfl
@[simp] theorem drawShift_pixmap : (drawShift S b x chrWidth).1.pixmap =
    shiftPixmap S b.align b.pixmap (b.gcontexts .bg) x chrWidth := rfl
@[simp] theorem drawShift_snd : (drawShift S b x chrWidth).2 = shiftColumn S b.align x chrWidth := rfl

end DrawShift

/-! ### Drawing text -/

/-- `bar::draw_lines(x, w)`: the overline and underline of the active attributes,
when lines have a height. -/
def drawLines (b : Bar) (x w : Int) : Pixmap :=
  if S.lineheight = 0 then b.pixmap
  else
    let p := if b.attributes &&& Attribute.o.bit ≠ 0 then
        Pixmap.paint S.width b.pixmap x w fun _ c => { c with overline := some (b.gcontexts .ol) }
      else b.pixmap
    if b.attributes &&& Attribute.u.bit ≠ 0 then
      Pixmap.paint S.width p x w fun _ c => { c with underline := some (b.gcontexts .ul) }
    else p

/-- The width `draw_character` draws a glyph at: an odd width is made even in the
centre zone. -/
def roundWidth (align : Alignment) (w : Nat) : Int :=
  if align = .center ∧ w % 2 = 1 then w + 1 else w

/-- `bar::draw_character(character)`. A character no font has is skipped. -/
def drawCharacter (b : Bar) (ch : UInt16) : Bar :=
  match F.charWidth b.preferredFont ch with
  | none => b
  | some w =>
    let chrWidth := roundWidth b.align w
    let r := drawShift S b b.xpos chrWidth
    let b' := { r.1 with pixmap := Pixmap.drawGlyph S.width r.1.pixmap ch r.2 chrWidth }
    { b' with pixmap := drawLines S b' r.2 chrWidth, xpos := b.xpos + chrWidth }

/-- `bar::draw_textstring(text, len)`. -/
def drawTextstring (b : Bar) (text : List UInt8) : Bar :=
  text.foldl (fun b c => drawCharacter S F b (charToUInt16 c)) b

theorem drawCharacter_of_none {b : Bar} {ch : UInt16} (h : F.charWidth b.preferredFont ch = none) :
    drawCharacter S F b ch = b := by
  simp [drawCharacter, h]

/-- What no handler touches: the tray's slot count and the last content drawn. -/
def Bar.frame (b : Bar) : Nat × List Char :=
  (b.slots, b.prevdata)

theorem drawCharacter_frame (b : Bar) (ch : UInt16) : (drawCharacter S F b ch).frame = b.frame := by
  unfold drawCharacter; split <;> rfl

section DrawCharacter

variable {b : Bar} {ch : UInt16} {w : Nat} (h : F.charWidth b.preferredFont ch = some w)
include h

theorem drawCharacter_align : (drawCharacter S F b ch).align = b.align := by
  simp [drawCharacter, h]
theorem drawCharacter_xpos : (drawCharacter S F b ch).xpos = b.xpos + roundWidth b.align w := by
  simp [drawCharacter, h]
theorem drawCharacter_actions : (drawCharacter S F b ch).actions =
    translateActions b.align (shiftDelta b.align (roundWidth b.align w)) b.actions := by
  simp [drawCharacter, h]
theorem drawCharacter_preferredFont : (drawCharacter S F b ch).preferredFont = b.preferredFont := by
  simp [drawCharacter, h]

end DrawCharacter

/-! ### The parser's callbacks -/

/-- `bar::on_alignment_change(align)`. -/
def onAlignmentChange (align : Alignment) (b : Bar) : Bar :=
  if align = b.align then b else { b with align := align, xpos := zoneOrigin S align }

/-- `bar::on_attribute_set(attr)`. -/
def onAttributeSet (attr : Attribute) (b : Bar) : Bar :=
  if b.attributes &&& attr.bit ≠ 0 then b else { b with attributes := b.attributes ||| attr.bit }

/-- `bar::on_attribute_unset(attr)`. -/
def onAttributeUnset (attr : Attribute) (b : Bar) : Bar :=
  if b.attributes &&& attr.bit = 0 then b else { b with attributes := b.attributes ^^^ attr.bit }

/-- Setting and unsetting an attribute change the attribute set only. -/
theorem onAttributeSet_eq (attr : Attribute) (b : Bar) : onAttributeSet attr b =
    { b with attributes := if b.attributes &&& attr.bit ≠ 0 then b.attributes else b.attributes ||| attr.bit } := by
  unfold onAttributeSet; split <;> rfl

theorem onAttributeUnset_eq (attr : Attribute) (b : Bar) : onAttributeUnset attr b =
    { b with attributes := if b.attributes &&& attr.bit = 0 then b.attributes else b.attributes ^^^ attr.bit } := by
  unfold onAttributeUnset; split <;> rfl

/-- `bar::on_attribute_toggle(attr)`. -/
def onAttributeToggle (attr : Attribute) (b : Bar) : Bar :=
  { b with attributes := b.attributes ^^^ attr.bit }

/-- The button `on_action_block_open` records: `NONE` becomes `LEFT`. -/
def openButton (btn : Mousebtn) : Mousebtn :=
  if btn = .none then .left else btn

/-- `bar::on_action_block_open(btn, cmd)`: a new open region at the cursor. -/
def onActionBlockOpen (btn : Mousebtn) (cmd : List Char) (b : Bar) : Bar :=
  { b with actions := b.actions ++ [⟨b.align, openButton btn, b.xpos, 0, escapeColons cmd, true⟩] }

/-- The interval `on_action_block_close` gives the region it closes, from the cursor
`xpos` at the close. -/
def resolveAction (xpos : Int) (a : ActionBlock) : ActionBlock :=
  if a.align = .left then { a with active := false, endX := xpos }
  else if a.align = .center then
    let clickableWidth := xpos - a.startX
    let startX := centerBase S - clickableWidth.tdiv 2 + a.startX.tdiv 2
    { a with active := false, startX := startX, endX := startX + clickableWidth }
  else if a.align = .right then
    { a with active := false, startX := S.width - S.borderRight - xpos + a.startX,
             endX := S.width - S.borderRight }
  else { a with active := false }

/-- Whether `on_action_block_close(btn)` may close the region `a`. -/
def closes (btn : Mousebtn) (a : ActionBlock) : Bool :=
  a.active && a.button == btn

/-- `bar::on_action_block_close(btn)`: the latest open region for `btn` is resolved. -/
def onActionBlockClose (btn : Mousebtn) (b : Bar) : Bar :=
  { b with actions := modifyLast (closes btn) (resolveAction S b.xpos) b.actions }

/-- `bar::on_color_change(gc, color)`: the graphics context takes the colour, and the
font manager too when it is the foreground. -/
def onColorChange (gc : Gc) (color : Color) (b : Bar) : Bar :=
  { b with gcontexts := Function.update b.gcontexts gc color.value,
           fontColor := if gc = .fg then color.value else b.fontColor }

/-- `bar::on_font_change(index)`. -/
def onFontChange (index : Int) (b : Bar) : Bar :=
  { b with preferredFont := index }

/-- `bar::on_pixel_offset(px)`. -/
def onPixelOffset (px : Int) (b : Bar) : Bar :=
  { (drawShift S b b.xpos px).1 with xpos := b.xpos + px }

@[simp] theorem onPixelOffset_pixmap (px : Int) (b : Bar) :
    (onPixelOffset S px b).pixmap = shiftPixmap S b.align b.pixmap (b.gcontexts .bg) b.xpos px := rfl

/-- One event of the parser, delivered to the handler its callback is bound to. -/
def handleEvent (b : Bar) : Event → Bar
  | .alignmentChange align => onAlignmentChange S align b
  | .attributeSet attr => onAttributeSet attr b
  | .attributeUnset attr => onAttributeUnset attr b
  | .attributeToggle attr => onAttributeToggle attr b
  | .actionBlockOpen btn cmd => onActionBlockOpen btn cmd b
  | .actionBlockClose btn => onActionBlockClose S btn b
  | .colorChange gc color => onColorChange gc color b
  | .fontChange index => onFontChange index b
  | .pixelOffset px => onPixelOffset S px b
  | .asciiTextWrite ch => drawCharacter S F b ch
  | .unicodeTextWrite ch => drawCharacter S F b ch
  | .stringWrite text => drawTextstring S F b text

/-- The events of a pass, in order. -/
def runEvents (b : Bar) (events : List Event) : Bar :=
  events.foldl (handleEvent S F) b

/-- No handler changes the slot count or the last content. -/
theorem runEvents_frame (b : Bar) (events : List Event) : (runEvents S F b events).frame = b.frame := by
  induction events generalizing b with
  | nil => rfl
  | cons e es ih =>
    rw [runEvents, List.foldl_cons, ← runEvents, ih]
    cases e with
    | alignmentChange align => simp only [handleEvent, onAlignmentChange]; split <;> rfl
    | attributeSet attr => rw [handleEvent, onAttributeSet_eq]; rfl
    | attributeUnset attr => rw [handleEvent, onAttributeUnset_eq]; rfl
    | asciiTextWrite ch => exact drawCharacter_frame S F b ch
    | unicodeTextWrite ch => exact drawCharacter_frame S F b ch
    | stringWrite text =>
      show (drawTextstring S F b text).frame = b.frame
      induction text generalizing b with
      | nil => rfl
      | cons c cs ih' => exact (ih' _).trans (drawCharacter_frame S F b _)
    | _ => rfl

@[simp] theorem runEvents_slots (b : Bar) (events : List Event) :
    (runEvents S F b events).slots = b.slots :=
  congrArg Prod.fst (runEvents_frame S F b events)

@[simp] theorem runEvents_prevdata (b : Bar) (events : List Event) :
    (runEvents S F b events).prevdata = b.prevdata :=
  congrArg Prod.snd (runEvents_frame S F b events)

/-! ### The render pass -/

/-- `bar::draw_background()`. -/
def drawBackground (b : Bar) : Bar :=
  { b with pixmap := Pixmap.fill S.width b.pixmap (b.gcontexts .bg) 0 S.width }

/-- `bar::draw_border(border::ALL)`: the top and bottom stripes between the side
borders, then the two side borders over the full height. -/
def drawBorder (b : Bar) : Bar :=
  let p := b.pixmap
  let p := if 0 < S.borderTop then
      Pixmap.paint S.width p S.borderLeft (S.width - S.borderLeft - S.borderRight)
        fun _ c => { c with topBorder := some (b.gcontexts .bt) }
    else p
  let p := if 0 < S.borderBottom then
      Pixmap.paint S.width p S.borderLeft (S.width - S.borderLeft - S.borderRight)
        fun _ c => { c with bottomBorder := some (b.gcontexts .bb) }
    else p
  let p := if 0 < S.borderLeft then Pixmap.fill S.width p (b.gcontexts .bl) 0 S.borderLeft else p
  let p := if 0 < S.borderRight then
      Pixmap.fill S.width p (b.gcontexts .br) (S.width - S.borderRight) S.borderRight
    else p
  { b with pixmap := p }

/-- `bar::flush()`: the pixmap copied onto the window. -/
def flush (b : Bar) : Bar :=
  { b with window := b.pixmap }

/-- The opening of a render pass, up to its first event: the cursor reset to the left
zone at the left border, no attribute, no region, the background drawn, and the
tray's width reserved when the tray is on the left. -/
def passStart (data : List Char) (b : Bar) : Bar :=
  let b := drawBackground S
    { b with prevdata := data, align := .left, xpos := S.borderLeft, attributes := 0, actions := [] }
  if S.trayAlign = .left ∧ b.slots ≠ 0 then { b with xpos := b.xpos + trayReservation S b.slots }
  else b

section PassStart

variable (data : List Char) (b : Bar)

@[simp] theorem passStart_align : (passStart S data b).align = .left := by
  simp only [passStart, drawBackground]; split <;> rfl

@[simp] theorem passStart_actions : (passStart S data b).actions = [] := by
  simp only [passStart, drawBackground]; split <;> rfl

@[simp] theorem passStart_attributes : (passStart S data b).attributes = 0 := by
  simp only [passStart, drawBackground]; split <;> rfl

@[simp] theorem passStart_gcontexts : (passStart S data b).gcontexts = b.gcontexts := by
  simp only [passStart, drawBackground]; split <;> rfl

@[simp] theorem passStart_preferredFont : (passStart S data b).preferredFont = b.preferredFont := by
  simp only [passStart, drawBackground]; split <;> rfl

@[simp] theorem passStart_fontColor : (passStart S data b).fontColor = b.fontColor := by
  simp only [passStart, drawBackground]; split <;> rfl

@[simp] theorem passStart_slots : (passStart S data b).slots = b.slots := by
  simp only [passStart, drawBackground]; split <;> rfl

@[simp] theorem passStart_prevdata : (passStart S data b).prevdata = data := by
  simp only [passStart, drawBackground]; split <;> rfl

/-- A pass starts by painting the whole bar with the background. -/
theorem passStart_pixmap : (passStart S data b).pixmap =
    Pixmap.fill S.width b.pixmap (b.gcontexts .bg) 0 S.width := by
  simp only [passStart, drawBackground]; split <;> rfl

/-- The cursor a pass starts at: the left border, plus the tray's width when the tray
is on the left and holds a slot. -/
theorem passStart_xpos : (passStart S data b).xpos =
    S.borderLeft + if S.trayAlign = .left ∧ b.slots ≠ 0 then trayReservation S b.slots else 0 := by
  simp only [passStart, drawBackground]; split <;> simp

end PassStart

/-- The close of a render pass after its last event: the shift for a tray on the
right, the borders, the flush. -/
def passEnd (b : Bar) : Bar :=
  let b := if S.trayAlign = .right ∧ b.slots ≠ 0 then
      (drawShift S b b.xpos (trayReservation S b.slots)).1
    else b
  flush (drawBorder S b)

@[simp] theorem drawBorder_actions (b : Bar) : (drawBorder S b).actions = b.actions := rfl
@[simp] theorem drawBorder_slots (b : Bar) : (drawBorder S b).slots = b.slots := rfl
@[simp] theorem flush_actions (b : Bar) : (flush b).actions = b.actions := rfl

/-- The close of a pass changes the table only by the shift for a tray on the right. -/
theorem passEnd_actions (b : Bar) : (passEnd S b).actions =
    if S.trayAlign = .right ∧ b.slots ≠ 0 then
      translateActions b.align (shiftDelta b.align (trayReservation S b.slots)) b.actions
    else b.actions := by
  unfold passEnd; split <;> rfl

/-- A render pass of `bar::parse` over the events the parser emits for `data`. An
unrecognised token ends the parser's events early; the pass goes on as usual. -/
def renderPass (data : List Char) (events : List Event) (b : Bar) : Bar :=
  passEnd S (runEvents S F (passStart S data b) events)

/-- A pass records its content as the last content drawn. -/
theorem renderPass_prevdata (data : List Char) (events : List Event) (b : Bar) :
    (renderPass S F data events b).prevdata = data := by
  simp only [renderPass, passEnd, flush, drawBorder]
  split <;> simp

/-- `bar::parse(data, force)`, with `markup` the events the parser emits for a text. -/
def parse (markup : List Char → List Event) (data : List Char) (force : Bool) (b : Bar) : Bar :=
  if data = b.prevdata ∧ force = false then b else renderPass S F data (markup data) b

/-- `bar::on_tray_report(slots)`. -/
def onTrayReport (markup : List Char → List Event) (slots : Nat) (b : Bar) : Bar :=
  if b.slots = slots then b
  else
    let b := { b with slots := slots }
    if b.prevdata ≠ [] then parse S F markup b.prevdata true b else b

/-- `bar::handle(button_press)`: the command passed to `action_click`, if a region
matches; `passes` is the throttler's decision. The scan skips an open region, one for
another button, and one with `start_x > x` or `end_x < x`. -/
def handleButtonPress (b : Bar) (passes : Bool) (button : Mousebtn) (x : Int) :
    Option (List Char) :=
  if passes then
    (b.actions.find? fun a => !a.active && a.button == button && !(a.startX > x) && !(a.endX < x)).map
      (·.command)
  else none

end Handlers

end Lemonbuddy
