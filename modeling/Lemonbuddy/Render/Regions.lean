import Lemonbuddy.Render.Actions

/-!
# Action regions follow their content

A region is opened at the cursor and closed at the cursor. Meanwhile, and after its
close, `draw_shift` moves the zone's content, and moves the zone's closed regions with
it. This module compares the regions the engine keeps with where their content is in
the direct layout of their zone block. With `X` the block's content width and `p`, `q`
its widths at a region's open and close, the content of the region is at
`[s + p, s + q)`, where `s` is where the block's content starts (`contentStart`): the
block's first cursor on the left, `base_x - floor(X / 2)` in the centre,
`width - border_right - X` on the right.

The direct layout of a block is `Layout`, run event by event by `Layout.step`, and
`Tracks` relates it to the render state. `Tracks.step` is the simulation: every event
of the block keeps the relation, provided an offset in the centre zone is even
(`InBlock`). `Tracks.run` carries it over a whole block, and
`block_regions_follow_content` is the result for a block entered at a pass's start or
by `on_alignment_change` (`BlockStart`).

The centre's hypothesis is where the code goes wrong. `draw_character` rounds odd
glyph widths up in the centre, because the halvings of `draw_shift` and
`on_action_block_close` agree with the content's move only for even widths; but
`on_pixel_offset` does not. After an offset of one column, the region of the next
glyph is one column left of the glyph (`odd_offset_misplaces_region`).
-/

namespace Lemonbuddy

/-! ### The direct layout of a block -/

/-- A region of a zone block in the direct layout: its button and command, and the
block's content width when it was opened and, once it is closed, when it was closed. -/
structure Region where
  button : Mousebtn
  command : List Char
  openAt : Int
  closeAt : Option Int
  deriving DecidableEq, Repr

/-- The direct layout of a zone block: the content width so far, the preferred font,
and the block's regions in the order they were opened. -/
structure Layout where
  width : Int
  font : Int
  regions : List Region
  deriving DecidableEq, Repr

namespace Layout

variable (F : Fonts) (z : Alignment)

/-- A character appended to the block, as wide as `draw_character` draws it. -/
def glyph (L : Layout) (ch : UInt16) : Layout :=
  match F.charWidth L.font ch with
  | none => L
  | some w => { L with width := L.width + roundWidth z w }

/-- Whether a close for `btn` ends the region `r`. -/
def ends (btn : Mousebtn) (r : Region) : Bool :=
  r.closeAt.isNone && r.button == btn

/-- One event of a block of zone `z`, laid out directly: glyphs and offsets widen the
content, an open starts a region at the current width, a close ends the latest open
region for its button there. -/
def step (L : Layout) : Event → Layout
  | .actionBlockOpen btn cmd =>
    { L with regions := L.regions ++ [⟨openButton btn, escapeColons cmd, L.width, none⟩] }
  | .actionBlockClose btn =>
    { L with regions := modifyLast (ends btn) (fun r => { r with closeAt := some L.width }) L.regions }
  | .fontChange index => { L with font := index }
  | .pixelOffset px => { L with width := L.width + px }
  | .asciiTextWrite ch => L.glyph F z ch
  | .unicodeTextWrite ch => L.glyph F z ch
  | .stringWrite text => text.foldl (fun L c => L.glyph F z (charToUInt16 c)) L
  | _ => L

/-- The events of a block, laid out directly. -/
def run (L : Layout) (events : List Event) : Layout :=
  events.foldl (step F z) L

end Layout

/-- Where the content of a block of zone `z` starts, for the block's first cursor `o`
and its content width `X`. -/
def contentStart (S : Settings) (z : Alignment) (o X : Int) : Int :=
  if z = .center then centerBase S - X / 2
  else if z = .right then S.width - S.borderRight - X
  else o

/-- The entry of the action table that stands for the region `r`: an open region
where `on_action_block_open` put it, a closed one over its content. -/
def Region.place (S : Settings) (z : Alignment) (o X : Int) (r : Region) : ActionBlock :=
  match r.closeAt with
  | none => ⟨z, r.button, o + r.openAt, 0, r.command, true⟩
  | some q => ⟨z, r.button, contentStart S z o X + r.openAt, contentStart S z o X + q, r.command, false⟩

/-- An event that stays in the block of zone `z`: an alignment change only to `z`
itself, and in the centre only an even pixel offset. -/
def InBlock (z : Alignment) : Event → Prop
  | .alignmentChange align => align = z
  | .pixelOffset px => z = .center → Even px
  | _ => True

/-! ### Moving and closing placed regions -/

section Place

variable (S : Settings) {z : Alignment} {o : Int} {frozen : List ActionBlock}

/-- **The hypotheses of a block.** Its zone has a content start, the block's first
cursor is the one `on_alignment_change` gives the centre and the right zone, and the
regions of earlier blocks are closed and of other zones. -/
structure Block (z : Alignment) (o : Int) (frozen : List ActionBlock) : Prop where
  zone : z ≠ .none
  center : z = .center → o = 0
  right : z = .right → o = S.borderRight
  frozen : ∀ a ∈ frozen, a.active = false ∧ a.align ≠ z

theorem tdiv_two_of_even {n : Int} (h : Even n) : n.tdiv 2 = n / 2 :=
  Int.tdiv_eq_ediv_of_dvd (even_iff_two_dvd.mp h)

/-- The content start moves as `draw_shift` moves the closed regions, when the widths
are even in the centre. -/
theorem contentStart_sub_shiftDelta (hz : z ≠ .none) (hl : z ≠ .left) {X w : Int}
    (heven : z = .center → Even X ∧ Even w) :
    contentStart S z o X - shiftDelta z w = contentStart S z o (X + w) := by
  by_cases hc : z = .center
  · obtain ⟨hX, hw⟩ := heven hc
    simp only [contentStart, shiftDelta, hc, if_true, tdiv_two_of_even hw]
    rw [Int.even_iff] at hX hw
    omega
  · have hr : z = .right := by cases z <;> simp_all
    simp only [contentStart, shiftDelta, hr, reduceCtorEq, if_false, if_true]
    ring

/-- `draw_shift`'s translation of the table: the earlier regions stay, and the block's
regions are placed for the wider content. -/
theorem translateActions_place (hB : Block S z o frozen) {X w : Int}
    (heven : z = .center → Even X ∧ Even w) (regions : List Region) :
    translateActions z (shiftDelta z w) (frozen ++ regions.map (Region.place S z o X)) =
      frozen ++ regions.map (Region.place S z o (X + w)) := by
  by_cases hl : z = .left
  · subst hl
    simp only [translateActions, if_true, List.append_cancel_left_eq]
    refine List.map_congr_left fun r _ => ?_
    cases hq : r.closeAt <;> simp [Region.place, hq, contentStart]
  · simp only [translateActions, hl, if_false, List.map_append, List.map_map]
    congr 1
    · refine (List.map_congr_left fun a ha => ?_).trans (List.map_id _)
      simp [(hB.frozen a ha).2]
    · refine List.map_congr_left fun r _ => ?_
      have hs : contentStart S z o X - shiftDelta z w = contentStart S z o (X + w) :=
        contentStart_sub_shiftDelta S hB.zone hl heven
      cases hq : r.closeAt <;> simp [Region.place, hq, ← hs]
      omega

/-- `on_action_block_close`'s resolution of an open region at the cursor `o + X` places
it over its content, when the widths are even in the centre. -/
theorem resolveAction_place (hB : Block S z o frozen) {X : Int} {r : Region}
    (hr : r.closeAt = none) (heven : z = .center → Even X ∧ Even r.openAt) :
    resolveAction S (o + X) (Region.place S z o X r) =
      Region.place S z o X { r with closeAt := some X } := by
  cases z with
  | none => exact absurd rfl hB.zone
  | left => simp [Region.place, hr, resolveAction, contentStart]
  | center =>
    obtain ⟨hX, hp⟩ := heven rfl
    have ho := hB.center rfl
    have hXp : Even (X - r.openAt) := hX.sub hp
    simp only [Region.place, hr, resolveAction, contentStart, ho, zero_add, tdiv_two_of_even hXp,
      tdiv_two_of_even hp, if_true, reduceCtorEq, if_false, ActionBlock.mk.injEq, true_and, and_true]
    rw [Int.even_iff] at hX hp
    omega
  | right =>
    simp only [Region.place, hr, resolveAction, contentStart, hB.right rfl, reduceCtorEq,
      if_false, if_true, ActionBlock.mk.injEq, true_and, and_true]
    omega

end Place

/-! ### The simulation -/

section Simulation

variable (S : Settings) (F : Fonts) {z : Alignment} {o : Int} {frozen : List ActionBlock}

/-- **The simulation relation.** The render state `b` draws the block `L` of zone `z`
from the first cursor `o`, behind the regions `frozen` of earlier blocks: same zone,
cursor and font, the table is `frozen` and then the block's regions placed, and in the
centre every width is even. -/
structure Tracks (z : Alignment) (o : Int) (frozen : List ActionBlock) (b : Bar) (L : Layout) :
    Prop where
  align : b.align = z
  xpos : b.xpos = o + L.width
  font : b.preferredFont = L.font
  actions : b.actions = frozen ++ L.regions.map (Region.place S z o L.width)
  even : z = .center → Even L.width ∧ ∀ r ∈ L.regions, Even r.openAt

variable {S} {b b' : Bar} {L : Layout}

/-- A handler that keeps the zone, the cursor, the font and the table keeps the
relation. -/
theorem Tracks.congr (h : Tracks S z o frozen b L) (halign : b'.align = b.align)
    (hx : b'.xpos = b.xpos) (hf : b'.preferredFont = b.preferredFont)
    (ha : b'.actions = b.actions) : Tracks S z o frozen b' L :=
  ⟨halign ▸ h.align, hx ▸ h.xpos, hf ▸ h.font, ha ▸ h.actions, h.even⟩

/-- Content `w` columns wide drawn through `draw_shift` at the cursor keeps the relation
with the block widened by `w`. -/
theorem Tracks.shift (hB : Block S z o frozen) (h : Tracks S z o frozen b L) {w : Int}
    (hw : z = .center → Even w) (halign : b'.align = b.align) (hx : b'.xpos = b.xpos + w)
    (hf : b'.preferredFont = b.preferredFont)
    (ha : b'.actions = translateActions b.align (shiftDelta b.align w) b.actions) :
    Tracks S z o frozen b' { L with width := L.width + w } := by
  have heven : z = .center → Even L.width ∧ Even w := fun hc => ⟨(h.even hc).1, hw hc⟩
  refine ⟨halign ▸ h.align, by rw [hx, h.xpos]; ring, hf ▸ h.font, ?_, fun hc => ?_⟩
  · rw [ha, h.align, h.actions, translateActions_place S hB heven]
  · exact ⟨(heven hc).1.add (heven hc).2, (h.even hc).2⟩

theorem roundWidth_center_even (w : Nat) : Even (roundWidth .center w) := by
  rw [Int.even_iff]
  simp only [roundWidth, true_and]
  split <;> omega

/-- `draw_character` keeps the relation with the block's direct layout of the glyph. -/
theorem Tracks.glyph (hB : Block S z o frozen) (h : Tracks S z o frozen b L) (ch : UInt16) :
    Tracks S z o frozen (drawCharacter S F b ch) (L.glyph F z ch) := by
  cases hw : F.charWidth L.font ch with
  | none =>
    rw [drawCharacter_of_none S F (h.font ▸ hw)]
    simpa [Layout.glyph, hw] using h
  | some w =>
    have hw' : F.charWidth b.preferredFont ch = some w := h.font ▸ hw
    simp only [Layout.glyph, hw]
    refine h.shift hB (fun hc => hc ▸ roundWidth_center_even w) (drawCharacter_align S F hw') ?_
      (drawCharacter_preferredFont S F hw') ?_
    · rw [drawCharacter_xpos S F hw', h.align]
    · rw [drawCharacter_actions S F hw', h.align]

/-- An open appends a region at the cursor. -/
theorem Tracks.open (h : Tracks S z o frozen b L) (btn : Mousebtn) (cmd : List Char) :
    Tracks S z o frozen (onActionBlockOpen btn cmd b) (L.step F z (.actionBlockOpen btn cmd)) := by
  refine ⟨h.align, h.xpos, h.font, ?_, fun hc => ⟨(h.even hc).1, ?_⟩⟩
  · simp [onActionBlockOpen, Layout.step, h.actions, h.align, h.xpos, Region.place]
  · simp only [Layout.step, List.mem_append, List.mem_singleton]
    rintro r (hr | rfl)
    exacts [(h.even hc).2 r hr, (h.even hc).1]

theorem ends_eq (btn : Mousebtn) (S : Settings) (z : Alignment) (o X : Int) (r : Region) :
    closes btn (Region.place S z o X r) = Layout.ends btn r := by
  unfold Region.place Layout.ends closes; cases r.closeAt <;> simp

/-- A close resolves the latest open region of the block for its button, over its
content. -/
theorem Tracks.close (hB : Block S z o frozen) (h : Tracks S z o frozen b L) (btn : Mousebtn) :
    Tracks S z o frozen (onActionBlockClose S btn b) (L.step F z (.actionBlockClose btn)) := by
  have hfrozen : ∀ a ∈ frozen, closes btn a = false := fun a ha => by
    simp [closes, (hB.frozen a ha).1]
  refine ⟨h.align, h.xpos, h.font, ?_, fun hc => ⟨(h.even hc).1, fun r hr => ?_⟩⟩
  · simp only [onActionBlockClose, Layout.step, h.actions, h.xpos, modifyLast_append hfrozen]
    congr 1
    refine modifyLast_map _ (fun r _ => ends_eq btn S z o L.width r) (fun r hr hends => ?_)
    simp only [Layout.ends, Bool.and_eq_true, Option.isNone_iff_eq_none] at hends
    exact resolveAction_place S hB hends.1 fun hc => ⟨(h.even hc).1, (h.even hc).2 r hr⟩
  · -- a close keeps every region's opening width
    rcases mem_modifyLast hr with hr | ⟨r', hr', rfl⟩
    exacts [(h.even hc).2 r hr, (h.even hc).2 r' hr']

/-- **The simulation step.** Every event that stays in the block keeps the relation
with the block's direct layout. -/
theorem Tracks.step (hB : Block S z o frozen) (h : Tracks S z o frozen b L) (e : Event)
    (he : InBlock z e) : Tracks S z o frozen (handleEvent S F b e) (L.step F z e) := by
  cases e with
  | alignmentChange align =>
    -- a change to the block's own zone is no change
    have : align = b.align := he.trans h.align.symm
    simpa [handleEvent, onAlignmentChange, this, Layout.step] using h
  | attributeSet attr =>
    rw [handleEvent, onAttributeSet_eq]; exact h.congr rfl rfl rfl rfl
  | attributeUnset attr =>
    rw [handleEvent, onAttributeUnset_eq]; exact h.congr rfl rfl rfl rfl
  | attributeToggle attr => exact h.congr rfl rfl rfl rfl
  | actionBlockOpen btn cmd => exact h.open F btn cmd
  | actionBlockClose btn => exact h.close F hB btn
  | colorChange gc color => exact h.congr rfl rfl rfl rfl
  | fontChange index => exact ⟨h.align, h.xpos, rfl, h.actions, h.even⟩
  | pixelOffset px => exact h.shift hB he rfl rfl rfl rfl
  | asciiTextWrite ch => exact h.glyph F hB ch
  | unicodeTextWrite ch => exact h.glyph F hB ch
  | stringWrite text =>
    show Tracks S z o frozen (drawTextstring S F b text) (text.foldl _ L)
    induction text generalizing b L with
    | nil => exact h
    | cons c cs ih => exact ih (h.glyph F hB (charToUInt16 c)) trivial

/-- **The simulation over a run.** Events that all stay in the block keep the
relation, after each of them. -/
theorem Tracks.run (hB : Block S z o frozen) (h : Tracks S z o frozen b L) (events : List Event)
    (hev : ∀ e ∈ events, InBlock z e) :
    Tracks S z o frozen (runEvents S F b events) (L.run F z events) := by
  induction events generalizing b L with
  | nil => exact h
  | cons e es ih =>
    exact ih (h.step F hB e (hev e (by simp))) fun e' he' => hev e' (by simp [he'])

end Simulation

/-! ### Blocks of a pass -/

section Blocks

variable (S : Settings) (F : Fonts)

/-- A render state at the start of a block of zone `z`: the zone is set, and the cursor
and the table satisfy the block's hypotheses. -/
def BlockStart (z : Alignment) (b : Bar) : Prop :=
  b.align = z ∧ Block S z b.xpos b.actions

/-- A pass starts a block of the left zone. -/
theorem blockStart_passStart (data : List Char) (b : Bar) :
    BlockStart S .left (passStart S data b) :=
  ⟨passStart_align S data b, by decide, by simp, by simp, by simp⟩

/-- `on_alignment_change` to another zone, none of whose regions is in the table, after
every region is closed, starts a block of that zone. -/
theorem blockStart_onAlignmentChange {z : Alignment} {b : Bar} (hz : z ≠ .none) (hne : z ≠ b.align)
    (hclosed : ∀ a ∈ b.actions, a.active = false ∧ a.align ≠ z) :
    BlockStart S z (onAlignmentChange S z b) := by
  simp only [onAlignmentChange, hne, if_false]
  exact ⟨rfl, hz, fun hc => by simp [zoneOrigin, hc], fun hr => by simp [zoneOrigin, hr], hclosed⟩

/-- **Regions follow their content.** From the start of a block of zone `z`, after
any events that stay in the block, the table holds the regions of earlier blocks
unchanged and then one entry per open of the block, in order: an open region where it
was opened, a closed one over its content in the block's direct layout. -/
theorem block_regions_follow_content {z : Alignment} {b : Bar} (hb : BlockStart S z b)
    (events : List Event) (hev : ∀ e ∈ events, InBlock z e) :
    let L := Layout.run F z ⟨0, b.preferredFont, []⟩ events
    (runEvents S F b events).actions = b.actions ++ L.regions.map (Region.place S z b.xpos L.width) ∧
      (runEvents S F b events).xpos = b.xpos + L.width := by
  have h0 : Tracks S z b.xpos b.actions b ⟨0, b.preferredFont, []⟩ :=
    ⟨hb.1, by simp, rfl, by simp, fun _ => ⟨even_zero, by simp⟩⟩
  have h := h0.run F hb.2 events hev
  exact ⟨h.actions, h.xpos⟩

end Blocks

theorem block_regions_follow_content_left :
    BlockStart demoSettings .left (passStart demoSettings [] demoBar) ∧
      (∀ e ∈ [Event.actionBlockOpen ⟨1⟩ ['a'], .asciiTextWrite 97, .actionBlockClose ⟨1⟩],
        InBlock .left e) ∧
      (runEvents demoSettings demoFonts (passStart demoSettings [] demoBar)
        [.actionBlockOpen ⟨1⟩ ['a'], .asciiTextWrite 97, .actionBlockClose ⟨1⟩]).actions =
        [⟨.left, ⟨1⟩, 0, 10, ['a'], false⟩] := by
  have hb := blockStart_passStart demoSettings [] demoBar
  have hev : ∀ e ∈ [Event.actionBlockOpen ⟨1⟩ ['a'], .asciiTextWrite 97, .actionBlockClose ⟨1⟩],
      InBlock .left e := by
    simp [InBlock]
  refine ⟨hb, hev, ?_⟩
  rw [(block_regions_follow_content demoSettings demoFonts hb _ hev).1]
  decide

/-! ### An odd offset in the centre -/

/-- **An odd offset in the centre misplaces a region.** After `%{c}%{O1}`, the region
`%{A1:a:}a%{A}` of a 10-column glyph is resolved to `[45, 55)`, while the glyph is drawn
over `[46, 56)`, where the direct layout puts the region: the region's first column is
background and the glyph's last column is outside it. -/
theorem odd_offset_misplaces_region :
    let events : List Event := [.pixelOffset 1, .actionBlockOpen ⟨1⟩ ['a'], .asciiTextWrite 97,
      .actionBlockClose ⟨1⟩]
    let L := Layout.run demoFonts .center ⟨0, 0, []⟩ events
    let b := renderPass demoSettings demoFonts [] (.alignmentChange .center :: events) demoBar
    L.regions.map (Region.place demoSettings .center 0 L.width) =
        [⟨.center, ⟨1⟩, 46, 56, ['a'], false⟩] ∧
      b.actions = [⟨.center, ⟨1⟩, 45, 55, ['a'], false⟩] ∧
      (b.pixmap 45).base = .fill 0 ∧ ∀ k : Fin 10, (b.pixmap (46 + k)).base = .glyph 97 k := by
  decide

end Lemonbuddy
