import Lemonbuddy.Render.Actions

/-!
# What a render pass depends on

`bar::parse` resets part of the render state at the start of a pass: the zone, the
cursor, the attributes and the action table, and it paints the whole bar with the
background. It does not reset the graphics contexts, the preferred font or the text
colour. Those keep what the last `on_color_change` and `on_font_change` of the earlier
passes gave them, so a pass does depend on its history, through those three
(`colour_survives_pass`). It depends on nothing else. `Agree` relates two render
states that differ only in what no handler reads: the pixmap outside the bar's
columns, the last content, the window, the slot count. Every handler keeps the
relation (`Agree.handleEvent`), and so does a run of handlers (`Agree.runEvents`). Two
passes from states with the same colours, font and slot count therefore agree
(`renderPass_depends_on`).

The same relation compares a pass for a tray on the right holding slots with the pass
for an empty tray (`renderPass_right_tray`). The two runs of handlers agree, and
`bar::parse` then calls `draw_shift` with the tray's width in whatever zone the content
ended. When the content ends in the centre zone, it moves the centre's content and
regions by half the tray's width, not the right zone's (`right_tray_moves_center`).
-/

namespace Lemonbuddy

/-- Two pixmaps equal on the columns `[0, W)`. -/
def PixAgree (W : Int) (p q : Pixmap) : Prop :=
  ∀ c, 0 ≤ c → c < W → p c = q c

namespace PixAgree

variable {W : Int} {p q : Pixmap}

theorem paint (h : PixAgree W p q) (x w : Int) (f : Int → Cell → Cell) :
    PixAgree W (Pixmap.paint W p x w f) (Pixmap.paint W q x w f) := fun c h0 hW => by
  simp only [Pixmap.paint, h c h0 hW]

theorem copyArea (h : PixAgree W p q) (src dst w : Int) :
    PixAgree W (Pixmap.copyArea W p src dst w) (Pixmap.copyArea W q src dst w) := fun c h0 hW => by
  unfold Pixmap.copyArea
  split_ifs with hc
  exacts [h _ hc.2.2.2.2.1 hc.2.2.2.2.2, h c h0 hW]

theorem drawGlyph (h : PixAgree W p q) (ch : UInt16) (x w : Int) :
    PixAgree W (Pixmap.drawGlyph W p ch x w) (Pixmap.drawGlyph W q ch x w) :=
  h.paint _ _ _

/-- Two fills of the whole bar agree, whatever was under them. -/
theorem fill_all (p q : Pixmap) (color : UInt32) :
    PixAgree W (Pixmap.fill W p color 0 W) (Pixmap.fill W q color 0 W) := fun c h0 hW => by
  simp [Pixmap.fill, Pixmap.paint, h0, hW]

end PixAgree

/-- Two render states that no handler can tell apart: the same zone, cursor,
attributes, table, colours and font, and pixmaps equal on the bar's columns. -/
structure Agree (W : Int) (b₁ b₂ : Bar) : Prop where
  align : b₁.align = b₂.align
  xpos : b₁.xpos = b₂.xpos
  attributes : b₁.attributes = b₂.attributes
  actions : b₁.actions = b₂.actions
  gcontexts : b₁.gcontexts = b₂.gcontexts
  preferredFont : b₁.preferredFont = b₂.preferredFont
  fontColor : b₁.fontColor = b₂.fontColor
  pixmap : PixAgree W b₁.pixmap b₂.pixmap

/-! ### Every handler keeps the relation -/

section Handlers

variable (S : Settings) (F : Fonts) {b₁ b₂ : Bar}

theorem PixAgree.shiftPixmap {p q : Pixmap} (h : PixAgree S.width p q) (align : Alignment)
    (bg : UInt32) (x w : Int) :
    PixAgree S.width (shiftPixmap S align p bg x w) (shiftPixmap S align q bg x w) := by
  have hc : PixAgree S.width (shiftCopy S align p x w) (shiftCopy S align q x w) := by
    unfold shiftCopy
    split_ifs
    exacts [h.copyArea _ _ _, h.copyArea _ _ _, h]
  simp only [Lemonbuddy.shiftPixmap, Pixmap.fill]
  exact hc.paint _ _ _

theorem Agree.setPixmap (h : Agree S.width b₁ b₂) {p₁ p₂ : Pixmap} (hp : PixAgree S.width p₁ p₂) :
    Agree S.width { b₁ with pixmap := p₁ } { b₂ with pixmap := p₂ } :=
  ⟨h.align, h.xpos, h.attributes, h.actions, h.gcontexts, h.preferredFont, h.fontColor, hp⟩

/-- A state with its pixmap and cursor replaced. -/
theorem Agree.update (h : Agree S.width b₁ b₂) {p₁ p₂ : Pixmap} (hp : PixAgree S.width p₁ p₂)
    (x : Int) : Agree S.width { b₁ with pixmap := p₁, xpos := x } { b₂ with pixmap := p₂, xpos := x } :=
  ⟨h.align, rfl, h.attributes, h.actions, h.gcontexts, h.preferredFont, h.fontColor, hp⟩

theorem Agree.drawShift (h : Agree S.width b₁ b₂) (x w : Int) :
    Agree S.width (drawShift S b₁ x w).1 (drawShift S b₂ x w).1 :=
  ⟨h.align, h.xpos, h.attributes, by simp [h.align, h.actions], h.gcontexts, h.preferredFont,
    h.fontColor, by simpa [h.align, h.gcontexts] using h.pixmap.shiftPixmap S b₂.align _ x w⟩

theorem Agree.drawLines (h : Agree S.width b₁ b₂) (x w : Int) :
    PixAgree S.width (drawLines S b₁ x w) (drawLines S b₂ x w) := by
  unfold Lemonbuddy.drawLines
  simp only [h.attributes, h.gcontexts]
  split_ifs
  · exact h.pixmap
  · exact (h.pixmap.paint _ _ _).paint _ _ _
  · exact h.pixmap.paint _ _ _
  · exact h.pixmap.paint _ _ _
  · exact h.pixmap

theorem Agree.drawCharacter (h : Agree S.width b₁ b₂) (ch : UInt16) :
    Agree S.width (drawCharacter S F b₁ ch) (drawCharacter S F b₂ ch) := by
  cases hw : F.charWidth b₁.preferredFont ch with
  | none =>
    rwa [drawCharacter_of_none S F hw, drawCharacter_of_none S F (h.preferredFont ▸ hw)]
  | some w =>
    have hw₂ : F.charWidth b₂.preferredFont ch = some w := h.preferredFont ▸ hw
    simp only [Lemonbuddy.drawCharacter, hw, hw₂, drawShift_snd]
    rw [← h.xpos, ← h.align]
    -- the shift, the glyph at the column it returns, the lines over the glyph
    have hs := h.drawShift S b₁.xpos (roundWidth b₁.align w)
    have hg := hs.setPixmap S (hs.pixmap.drawGlyph ch
      (shiftColumn S b₁.align b₁.xpos (roundWidth b₁.align w)) (roundWidth b₁.align w))
    exact hg.update S (hg.drawLines S _ _) _

/-- **Every handler keeps the relation.** -/
theorem Agree.handleEvent (h : Agree S.width b₁ b₂) (e : Event) :
    Agree S.width (handleEvent S F b₁ e) (handleEvent S F b₂ e) := by
  cases e with
  | alignmentChange align =>
    simp only [Lemonbuddy.handleEvent, onAlignmentChange, h.align]
    split_ifs
    exacts [h, ⟨rfl, rfl, h.attributes, h.actions, h.gcontexts, h.preferredFont, h.fontColor, h.pixmap⟩]
  | attributeSet attr =>
    simp only [Lemonbuddy.handleEvent, onAttributeSet_eq, h.attributes]
    exact ⟨h.align, h.xpos, rfl, h.actions, h.gcontexts, h.preferredFont, h.fontColor, h.pixmap⟩
  | attributeUnset attr =>
    simp only [Lemonbuddy.handleEvent, onAttributeUnset_eq, h.attributes]
    exact ⟨h.align, h.xpos, rfl, h.actions, h.gcontexts, h.preferredFont, h.fontColor, h.pixmap⟩
  | attributeToggle attr =>
    exact ⟨h.align, h.xpos, by simp [Lemonbuddy.handleEvent, onAttributeToggle, h.attributes],
      h.actions, h.gcontexts, h.preferredFont, h.fontColor, h.pixmap⟩
  | actionBlockOpen btn cmd =>
    exact ⟨h.align, h.xpos, h.attributes,
      by simp [Lemonbuddy.handleEvent, onActionBlockOpen, h.actions, h.align, h.xpos],
      h.gcontexts, h.preferredFont, h.fontColor, h.pixmap⟩
  | actionBlockClose btn =>
    exact ⟨h.align, h.xpos, h.attributes,
      by simp [Lemonbuddy.handleEvent, onActionBlockClose, h.actions, h.xpos],
      h.gcontexts, h.preferredFont, h.fontColor, h.pixmap⟩
  | colorChange gc color =>
    exact ⟨h.align, h.xpos, h.attributes, h.actions,
      by simp [Lemonbuddy.handleEvent, onColorChange, h.gcontexts], h.preferredFont,
      by simp [Lemonbuddy.handleEvent, onColorChange, h.fontColor], h.pixmap⟩
  | fontChange index =>
    exact ⟨h.align, h.xpos, h.attributes, h.actions, h.gcontexts, rfl, h.fontColor, h.pixmap⟩
  | pixelOffset px =>
    simp only [Lemonbuddy.handleEvent, onPixelOffset]
    rw [← h.xpos]
    have hs := h.drawShift S b₁.xpos px
    exact hs.update S hs.pixmap _
  | asciiTextWrite ch => exact h.drawCharacter S F ch
  | unicodeTextWrite ch => exact h.drawCharacter S F ch
  | stringWrite text =>
    show Agree S.width (drawTextstring S F b₁ text) (drawTextstring S F b₂ text)
    induction text generalizing b₁ b₂ with
    | nil => exact h
    | cons c cs ih => exact ih (h.drawCharacter S F (charToUInt16 c))

/-- **Every run of handlers keeps the relation.** -/
theorem Agree.runEvents (h : Agree S.width b₁ b₂) (events : List Event) :
    Agree S.width (runEvents S F b₁ events) (runEvents S F b₂ events) := by
  induction events generalizing b₁ b₂ with
  | nil => exact h
  | cons e es ih => exact ih (h.handleEvent S F e)

end Handlers

/-! ### The opening and the close of a pass -/

section Pass

variable (S : Settings) (F : Fonts) {b₁ b₂ : Bar}

/-- Two passes open alike from states with the same colours and font, when their
cursors start alike. -/
theorem agree_passStart (data : List Char) (hgc : b₁.gcontexts = b₂.gcontexts)
    (hfont : b₁.preferredFont = b₂.preferredFont) (hcol : b₁.fontColor = b₂.fontColor)
    (hxpos : (passStart S data b₁).xpos = (passStart S data b₂).xpos) :
    Agree S.width (passStart S data b₁) (passStart S data b₂) :=
  ⟨by simp, hxpos, by simp, by simp, by simp [hgc], by simp [hfont], by simp [hcol],
    by simpa only [passStart_pixmap, hgc] using PixAgree.fill_all _ _ _⟩

theorem Agree.drawBorder (h : Agree S.width b₁ b₂) :
    Agree S.width (drawBorder S b₁) (drawBorder S b₂) := by
  refine ⟨h.align, h.xpos, h.attributes, h.actions, h.gcontexts, h.preferredFont, h.fontColor, ?_⟩
  simp only [Lemonbuddy.drawBorder, Pixmap.fill, h.gcontexts]
  split_ifs <;> repeat (first | exact h.pixmap | apply PixAgree.paint)

theorem Agree.passEnd (h : Agree S.width b₁ b₂) (hslots : b₁.slots = b₂.slots) :
    Agree S.width (passEnd S b₁) (passEnd S b₂) := by
  have hend : Agree S.width (if S.trayAlign = .right ∧ b₁.slots ≠ 0 then
      (Lemonbuddy.drawShift S b₁ b₁.xpos (trayReservation S b₁.slots)).1 else b₁)
      (if S.trayAlign = .right ∧ b₂.slots ≠ 0 then
      (Lemonbuddy.drawShift S b₂ b₂.xpos (trayReservation S b₂.slots)).1 else b₂) := by
    rw [← hslots, ← h.xpos]
    split_ifs
    exacts [h.drawShift S _ _, h]
  have hb := hend.drawBorder S
  exact ⟨hb.align, hb.xpos, hb.attributes, hb.actions, hb.gcontexts, hb.preferredFont,
    hb.fontColor, hb.pixmap⟩

end Pass

/-! ### History -/

section History

variable (S : Settings) (F : Fonts)

/-- **What a pass depends on.** A pass starts in the left zone at the left border
(after the tray's width when the tray is on the left), with no attribute, an empty
table and the whole bar painted with the background context's colour, but with the
graphics contexts, the preferred font and the text colour the earlier passes left. Two passes over the same events from states with the same
colours, font and slot count give the same table, and the same pixmap on the bar's
columns. -/
theorem renderPass_depends_on (data : List Char) (events : List Event) (b₁ b₂ : Bar)
    (hgc : b₁.gcontexts = b₂.gcontexts) (hfont : b₁.preferredFont = b₂.preferredFont)
    (hcol : b₁.fontColor = b₂.fontColor) (hslots : b₁.slots = b₂.slots) :
    let s := passStart S data b₁
    (s.align = .left ∧
      s.xpos = S.borderLeft +
        (if S.trayAlign = .left ∧ b₁.slots ≠ 0 then trayReservation S b₁.slots else 0) ∧
      s.attributes = 0 ∧ s.actions = [] ∧
      s.pixmap = Pixmap.fill S.width b₁.pixmap (b₁.gcontexts .bg) 0 S.width ∧ s.gcontexts = b₁.gcontexts ∧
      s.preferredFont = b₁.preferredFont ∧ s.fontColor = b₁.fontColor) ∧
    (renderPass S F data events b₁).actions = (renderPass S F data events b₂).actions ∧
    ∀ c, 0 ≤ c → c < S.width →
      (renderPass S F data events b₁).pixmap c = (renderPass S F data events b₂).pixmap c := by
  have hstart := agree_passStart S data hgc hfont hcol (by simp only [passStart_xpos, hslots])
  have hpass := (hstart.runEvents S F events).passEnd S (by simp [hslots])
  exact ⟨⟨by simp, passStart_xpos S data b₁, by simp, by simp, passStart_pixmap S data b₁, by simp, by simp,
    by simp⟩,
    hpass.actions, hpass.pixmap⟩

theorem renderPass_depends_on_demo :
    let b₂ := renderPass demoSettings demoFonts ['x'] [.asciiTextWrite 97] demoBar
    demoBar.gcontexts = b₂.gcontexts ∧ demoBar.preferredFont = b₂.preferredFont ∧
      demoBar.fontColor = b₂.fontColor ∧ demoBar.slots = b₂.slots ∧
      (renderPass demoSettings demoFonts ['y'] [.asciiTextWrite 98] demoBar).actions =
        (renderPass demoSettings demoFonts ['y'] [.asciiTextWrite 98] b₂).actions :=
  ⟨rfl, rfl, rfl, rfl,
    (renderPass_depends_on demoSettings demoFonts ['y'] [.asciiTextWrite 98] demoBar
      (renderPass demoSettings demoFonts ['x'] [.asciiTextWrite 97] demoBar) rfl rfl rfl rfl).2.1⟩

/-- **A colour outlives its pass.** A pass that sets the background to opaque red
leaves it in the graphics context: the next pass paints the bar red, where the same
pass from the bootstrapped state paints it with the configured background. -/
theorem colour_survives_pass :
    let red := Color.make "#FFFF0000".toList
    let b₁ := renderPass demoSettings demoFonts ['x'] [.colorChange .bg red] demoBar
    (passStart demoSettings ['y'] b₁).gcontexts .bg = red.value ∧
      red.value ≠ demoBar.gcontexts .bg ∧
      (renderPass demoSettings demoFonts ['y'] [] b₁).pixmap 0 ≠
        (renderPass demoSettings demoFonts ['y'] [] demoBar).pixmap 0 := by
  decide

end History

/-! ### The tray on the right -/

section Tray

variable (S : Settings) (F : Fonts)

/-- The pass for a tray on the right holding slots, against the pass for an empty
tray: the same run of handlers, then `draw_shift` by the tray's width in the zone the
content ended in. -/
theorem renderPass_right_tray (htray : S.trayAlign = .right) {b : Bar} (hslots : b.slots ≠ 0)
    (data : List Char) (events : List Event) :
    let last := runEvents S F (passStart S data b) events
    (renderPass S F data events b).actions =
      translateActions last.align (shiftDelta last.align (trayReservation S b.slots))
        (renderPass S F data events { b with slots := 0 }).actions := by
  have hstart : Agree S.width (passStart S data b) (passStart S data { b with slots := 0 }) :=
    agree_passStart S data rfl rfl rfl (by simp [passStart_xpos, htray])
  have hrun := hstart.runEvents S F events
  simp only [renderPass, passEnd_actions, runEvents_slots, passStart_slots, htray, hslots,
    true_and, ne_eq, not_true_eq_false, and_false, if_false, if_true, not_false_eq_true, hrun.actions]

/-- **A tray on the right moves the centre zone.** When the content ends in the centre
zone, the final `draw_shift` for a tray on the right holding slots moves every closed
region of the centre zone left by half the tray's width. -/
theorem right_tray_moves_center (htray : S.trayAlign = .right) {b : Bar} (hslots : b.slots ≠ 0)
    {data : List Char} {events : List Event}
    (hlast : (runEvents S F (passStart S data b) events).align = .center) :
    (renderPass S F data events b).actions =
      (renderPass S F data events { b with slots := 0 }).actions.map fun a =>
        if a.active ∨ a.align ≠ .center then a
        else { a with startX := a.startX - (trayReservation S b.slots).tdiv 2,
                      endX := a.endX - (trayReservation S b.slots).tdiv 2 } := by
  rw [renderPass_right_tray S F htray hslots, hlast]
  rfl

/-- **A tray on the right moves the right zone.** When the content ends in the right
zone, the final `draw_shift` moves every closed region of the right zone left by the
tray's width, and no other region. -/
theorem right_tray_moves_right_zone (htray : S.trayAlign = .right) {b : Bar} (hslots : b.slots ≠ 0)
    {data : List Char} {events : List Event}
    (hlast : (runEvents S F (passStart S data b) events).align = .right) :
    (renderPass S F data events b).actions =
      (renderPass S F data events { b with slots := 0 }).actions.map fun a =>
        if a.active ∨ a.align ≠ .right then a
        else { a with startX := a.startX - trayReservation S b.slots,
                      endX := a.endX - trayReservation S b.slots } := by
  rw [renderPass_right_tray S F htray hslots, hlast]
  rfl

/-- A bar of width 100 with a tray on the right, icons 16 columns wide and 2 apart. -/
def traySettings : Settings := ⟨100, 0, 0, 0, 0, 0, .right, 16, 2⟩

theorem right_tray_moves_center_one_slot :
    let events := [Event.alignmentChange .center, .actionBlockOpen ⟨1⟩ ['x'], .asciiTextWrite 120,
      .actionBlockClose ⟨1⟩]
    (renderPass traySettings demoFonts [] events { demoBar with slots := 0 }).actions =
        [⟨.center, ⟨1⟩, 45, 55, ['x'], false⟩] ∧
      (renderPass traySettings demoFonts [] events { demoBar with slots := 1 }).actions =
        [⟨.center, ⟨1⟩, 35, 45, ['x'], false⟩] := by
  refine ⟨by decide, ?_⟩
  rw [right_tray_moves_center traySettings demoFonts rfl (by decide) (by decide)]
  decide

theorem right_tray_moves_right_zone_one_slot :
    let events : List Event := [.alignmentChange .right, .actionBlockOpen ⟨1⟩ ['x'],
      .asciiTextWrite 120, .actionBlockClose ⟨1⟩]
    (renderPass traySettings demoFonts [] events { demoBar with slots := 0 }).actions =
        [⟨.right, ⟨1⟩, 90, 100, ['x'], false⟩] ∧
      (renderPass traySettings demoFonts [] events { demoBar with slots := 1 }).actions =
        [⟨.right, ⟨1⟩, 70, 80, ['x'], false⟩] := by
  refine ⟨by decide, ?_⟩
  rw [right_tray_moves_right_zone traySettings demoFonts rfl (by decide) (by decide)]
  decide

end Tray

end Lemonbuddy
