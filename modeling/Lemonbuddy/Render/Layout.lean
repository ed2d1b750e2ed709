import Lemonbuddy.Render.Regions

/-!
# Glyphs stay where the direct layout puts them

Every glyph `draw_character` draws goes behind the content of its zone: the zone's
content is first moved by `draw_shift` (copied left on the right, re-centred in the
centre), the rest of the bar is cleared, and the glyph is drawn in the gap. The
direct layout (`Direct`) says where each glyph should end up instead: the glyphs and
offsets of a zone laid end to end, from the left border in the left zone, from
`base_x - floor(W / 2)` in the centre zone of total width `W`, and up to the right
border in the right zone (`Direct.column`).

The two agree when the zones are entered in the order left, centre, right, the
offsets are not negative, and the zones' intervals lie in that order inside the bar
(`Ordered`): `renderPass_glyphs_in_place`. The centre zone's interval is taken, empty
or not, when the zone has a draw, a glyph or an offset; a centre zone with none
shifts nothing, and only the left and the right zone must then keep apart. The proof is one
invariant, `Draws`: after each event, every glyph drawn so far is at its direct-layout
column for the zone widths so far. `draw_shift` moves the current zone's content to
its new columns (`shiftPixmap_content`) and leaves the earlier zones below it alone
(`shiftPixmap_below`); `Draws.step` is the invariant's step and `Draws.run` its run.

Zone intervals that merely do not overlap are not enough. A centre zone whose draws
are all zero wide has the empty interval at `base_x`, but its draws still clear the
bar from `base_x` on, over any left content that reaches past it
(`empty_center_erases_left`).
-/

namespace Lemonbuddy

/-- The order in which a pass enters the zones. -/
def Alignment.rank : Alignment → Nat
  | .none => 0
  | .left => 1
  | .center => 2
  | .right => 3

/-- A glyph of the direct layout: its zone and character, the content width of its
zone before it, and its width. -/
structure Placed where
  zone : Alignment
  ch : UInt16
  offset : Int
  width : Int
  deriving DecidableEq, Repr

/-- The direct layout of a pass: the current zone and font, the content width of every
zone, the zones a draw has reached, and the glyphs drawn so far, in the order they
were emitted. -/
structure Direct where
  zone : Alignment
  font : Int
  width : Alignment → Int
  drawn : Alignment → Bool
  glyphs : List Placed

namespace Direct

variable (F : Fonts)

/-- The direct layout at the start of a pass. -/
def init (font : Int) : Direct :=
  ⟨.left, font, fun _ => 0, fun _ => false, []⟩

/-- The current zone's content widened by `w`, by a draw. -/
def widen (D : Direct) (w : Int) : Direct :=
  { D with width := Function.update D.width D.zone (D.width D.zone + w),
           drawn := Function.update D.drawn D.zone true }

/-- A character laid out at the end of the current zone, as wide as `draw_character`
draws it. -/
def glyph (D : Direct) (ch : UInt16) : Direct :=
  match F.charWidth D.font ch with
  | none => D
  | some w =>
    { D.widen (roundWidth D.zone w) with
      glyphs := D.glyphs ++ [⟨D.zone, ch, D.width D.zone, roundWidth D.zone w⟩] }

/-- One event, laid out directly. -/
def step (D : Direct) : Event → Direct
  | .alignmentChange align => { D with zone := align }
  | .fontChange index => { D with font := index }
  | .pixelOffset px => D.widen px
  | .asciiTextWrite ch => D.glyph F ch
  | .unicodeTextWrite ch => D.glyph F ch
  | .stringWrite text => text.foldl (fun D c => D.glyph F (charToUInt16 c)) D
  | _ => D

/-- The events of a pass, laid out directly. -/
def run (D : Direct) (events : List Event) : Direct :=
  events.foldl (step F) D

/-- Whether the event keeps to the order of zones: an alignment change only to a zone
not before the current one, and a pixel offset only forward. -/
def allows (D : Direct) : Event → Bool
  | .alignmentChange align => align != .none && D.zone.rank ≤ align.rank
  | .pixelOffset px => 0 ≤ px
  | _ => true

/-- Whether every event of the run keeps to the order of zones where it comes. -/
def allowsRun : Direct → List Event → Bool
  | _, [] => true
  | D, e :: es => D.allows e && allowsRun (D.step F e) es

/-- The column of the `k`-th column of the glyph `g`, for the zone widths of `D`. -/
def column (S : Settings) (D : Direct) (g : Placed) (k : Int) : Int :=
  contentStart S g.zone S.borderLeft (D.width g.zone) + g.offset + k

end Direct

/-- Where the content of a zone of width `X` ends. -/
def zoneEnd (S : Settings) (z : Alignment) (X : Int) : Int :=
  contentStart S z S.borderLeft X + X

/-- **The zones in order.** For the zone widths `W`: the left zone from the left border
and the right zone up to the right border lie inside the bar, the left one ending
where or before the right one starts; when the centre zone has a draw (`center`), its
interval from `base_x - floor(W / 2)` lies between them. -/
structure Ordered (S : Settings) (W : Alignment → Int) (center : Bool) : Prop where
  left : 0 ≤ S.borderLeft
  leftRight : S.borderLeft + W .left ≤ S.width - S.borderRight - W .right
  leftCenter : center = true → S.borderLeft + W .left ≤ centerBase S - W .center / 2
  centerRight : center = true → centerBase S - W .center / 2 + W .center ≤ S.width - S.borderRight - W .right
  right : 0 ≤ S.borderRight

/-! ### Geometry of the zones -/

section Geometry

variable (S : Settings) {z : Alignment} {X Y : Int}

theorem contentStart_anti (hXY : X ≤ Y) :
    contentStart S z S.borderLeft Y ≤ contentStart S z S.borderLeft X := by
  unfold contentStart; split_ifs <;> omega

theorem zoneEnd_mono (hXY : X ≤ Y) : zoneEnd S z X ≤ zoneEnd S z Y := by
  unfold zoneEnd contentStart; split_ifs <;> omega

variable {W : Alignment → Int} {c : Bool} (hW : Ordered S W c) (hnn : ∀ z, 0 ≤ W z)
include hW hnn

/-- A zone, the centre one when it has a draw, starts at or after the left border. -/
theorem Ordered.start_ge (hc : z = .center → c = true) :
    S.borderLeft ≤ contentStart S z S.borderLeft (W z) := by
  have := hW.leftRight; have := hnn .left; have := hnn .right
  cases z
  case center => have := hW.leftCenter (hc rfl); simp only [contentStart, if_true]; omega
  all_goals simp only [contentStart, reduceCtorEq, if_true, if_false]; omega

/-- A zone, the centre one when it has a draw, ends at or before the right border. -/
theorem Ordered.end_le (hz : z ≠ .none) (hc : z = .center → c = true) :
    zoneEnd S z (W z) ≤ S.width - S.borderRight := by
  have := hW.leftRight; have := hnn .right
  cases z
  case none => exact absurd rfl hz
  case center => have := hW.centerRight (hc rfl); simp only [zoneEnd, contentStart, if_true]; omega
  all_goals simp only [zoneEnd, contentStart, reduceCtorEq, if_true, if_false]; omega

omit hnn in
/-- An earlier zone ends where or before a later one starts, the centre one taken when
it has a draw. -/
theorem Ordered.before {z₁ z₂ : Alignment} (hz₁ : z₁ ≠ .none) (h : z₁.rank < z₂.rank)
    (hc₁ : z₁ = .center → c = true) (hc₂ : z₂ = .center → c = true) :
    zoneEnd S z₁ (W z₁) ≤ contentStart S z₂ S.borderLeft (W z₂) := by
  have := hW.leftRight
  cases z₁ <;> cases z₂ <;> simp only [Alignment.rank] at h <;> try omega
  case none.left | none.center | none.right => exact absurd rfl hz₁
  all_goals simp only [zoneEnd, contentStart, reduceCtorEq, if_true, if_false]
  case left.center => have := hW.leftCenter (hc₂ rfl); omega
  case left.right => omega
  case center.right => have := hW.centerRight (hc₁ rfl); omega

end Geometry

/-! ### What `draw_shift` does to the columns -/

section Shift

variable (S : Settings) {z : Alignment} {p : Pixmap} {bg : UInt32} {X w : Int}

theorem zoneOrigin_center : zoneOrigin S .center = 0 := rfl
theorem zoneOrigin_right : zoneOrigin S .right = S.borderRight := rfl
theorem zoneOrigin_left : zoneOrigin S .left = S.borderLeft := rfl

/-- The column `draw_shift` returns is the end of the zone's content before the draw,
moved for the wider content. -/
theorem shiftColumn_eq (hz : z ≠ .none) (hX : 0 ≤ X) (hw : 0 ≤ w) :
    shiftColumn S z (zoneOrigin S z + X) w = contentStart S z S.borderLeft (X + w) + X := by
  cases z with
  | none => exact absurd rfl hz
  | left => simp [shiftColumn, contentStart, zoneOrigin_left]
  | center =>
    simp [shiftColumn, contentStart, zoneOrigin_center, Int.tdiv_eq_ediv (by omega : 0 ≤ X + w)]
  | right => simp [shiftColumn, contentStart, zoneOrigin_right]; ring

/-- **The frame of `draw_shift`.** Below where the zone's content starts after the
draw, nothing changes. -/
theorem shiftPixmap_below (hz : z ≠ .none) (hX : 0 ≤ X) (hw : 0 ≤ w) {c : Int}
    (hc : c < contentStart S z S.borderLeft (X + w)) :
    shiftPixmap S z p bg (zoneOrigin S z + X) w c = p c := by
  have hfill : c < shiftColumn S z (zoneOrigin S z + X) w := by
    rw [shiftColumn_eq S hz hX hw]; omega
  simp only [shiftPixmap, Pixmap.fill]
  rw [Pixmap.paint_of_not_mem (.inl hfill)]
  unfold shiftCopy
  split_ifs with hc' hr
  · subst hc'
    simp only [contentStart, if_true] at hc
    rw [zoneOrigin_center, zero_add, Int.tdiv_eq_ediv (show 0 ≤ X + w by omega) (by decide)]
    exact Pixmap.copyArea_of_not_mem (.inl (by omega))
  · subst hr
    simp only [contentStart, reduceCtorEq, if_false, if_true] at hc
    exact Pixmap.copyArea_of_not_mem (.inl (by rw [zoneOrigin_right]; omega))
  · rfl

/-- **The move of `draw_shift`.** The `j`-th column of the zone's content is, after
the draw, where the wider content puts it, when the content stays inside the bar. -/
theorem shiftPixmap_content (hz : z ≠ .none) (hX : 0 ≤ X) (hw : 0 ≤ w) {j : Int} (hj0 : 0 ≤ j) (hjX : j < X) (h0 : 0 ≤ contentStart S z S.borderLeft (X + w))
    (hend : zoneEnd S z (X + w) ≤ S.width) :
    shiftPixmap S z p bg (zoneOrigin S z + X) w (contentStart S z S.borderLeft (X + w) + j) =
      p (contentStart S z S.borderLeft X + j) := by
  have hmono : zoneEnd S z X ≤ zoneEnd S z (X + w) := zoneEnd_mono S (by omega)
  have hanti : contentStart S z S.borderLeft (X + w) ≤ contentStart S z S.borderLeft X :=
    contentStart_anti S (by omega)
  unfold zoneEnd at hmono hend
  simp only [shiftPixmap, Pixmap.fill]
  rw [Pixmap.paint_of_not_mem (.inl (by rw [shiftColumn_eq S hz hX hw]; omega))]
  unfold shiftCopy
  cases z with
  | none => exact absurd rfl hz
  | left => simp [contentStart]
  | center =>
    simp only [contentStart, if_true, zoneOrigin_center, zero_add] at hmono hend hanti h0 ⊢
    rw [Int.tdiv_eq_ediv hX (by decide), Int.tdiv_eq_ediv (by omega) (by decide)]
    rw [Pixmap.copyArea_of_mem (by omega) (by omega) (by omega) (by omega) (by omega) (by omega)]
    congr 1; ring
  | right =>
    simp only [contentStart, reduceCtorEq, if_false, if_true, zoneOrigin_right] at hmono hend hanti h0 ⊢
    rw [Pixmap.copyArea_of_mem (by omega) (by omega) (by omega) (by omega) (by omega) (by omega)]
    congr 1; ring

end Shift

/-! ### Glyph columns under the other drawing steps -/

theorem Pixmap.paint_base {W : Int} {p : Pixmap} {x w : Int} {f : Int → Cell → Cell}
    (hf : ∀ c cell, (f c cell).base = cell.base) (c : Int) :
    (Pixmap.paint W p x w f c).base = (p c).base := by
  unfold Pixmap.paint; split_ifs <;> simp [hf]

theorem Pixmap.drawGlyph_base {W : Int} {p : Pixmap} {ch : UInt16} {x w c : Int} (h0 : 0 ≤ c)
    (hW : c < W) (hx : x ≤ c) (hxw : c < x + w) :
    (Pixmap.drawGlyph W p ch x w c).base = .glyph ch (c - x).toNat := by
  simp [Pixmap.drawGlyph, Pixmap.paint_of_mem h0 hW hx hxw]

section Lines

variable (S : Settings) (F : Fonts)

/-- Over- and underlines are stripes: they keep what every column shows under them. -/
theorem drawLines_base (b : Bar) (x w c : Int) : (drawLines S b x w c).base = (b.pixmap c).base := by
  unfold drawLines; split_ifs <;> simp [Pixmap.paint_base]

/-- What `draw_character` leaves in a column: the glyph drawn at the column `draw_shift`
returns, over the shifted pixmap. -/
theorem drawCharacter_base {b : Bar} {ch : UInt16} {w : Nat}
    (h : F.charWidth b.preferredFont ch = some w) (c : Int) :
    ((drawCharacter S F b ch).pixmap c).base =
      (Pixmap.drawGlyph S.width (shiftPixmap S b.align b.pixmap (b.gcontexts .bg) b.xpos
        (roundWidth b.align w)) ch (shiftColumn S b.align b.xpos (roundWidth b.align w))
        (roundWidth b.align w) c).base := by
  simp [drawCharacter, h, drawLines_base]

/-- The borders keep what the columns between them show. -/
theorem drawBorder_base (b : Bar) {c : Int} (hl : S.borderLeft ≤ c) (hr : c < S.width - S.borderRight) :
    ((drawBorder S b).pixmap c).base = (b.pixmap c).base := by
  simp only [drawBorder]
  split_ifs <;>
    simp only [Pixmap.fill, Pixmap.paint_of_not_mem (Or.inr (by omega : 0 + S.borderLeft ≤ c)),
      Pixmap.paint_of_not_mem (Or.inl (by omega : c < S.width - S.borderRight)), Pixmap.paint_base,
      implies_true]

end Lines

/-! ### The invariant -/

/-- Every glyph of the direct layout `D` shows at its column in the pixmap `p`. -/
def Cells (S : Settings) (p : Pixmap) (D : Direct) : Prop :=
  ∀ g ∈ D.glyphs, ∀ k, 0 ≤ k → k < g.width → (p (D.column S g k)).base = .glyph g.ch k.toNat

/-- **The invariant of a pass.** The render state `b` has drawn the direct layout `D`,
within the zone widths `W`: the same zone, font and cursor; no width yet for the
zones not entered; every glyph of a zone entered, inside its zone's content, and in
the centre zone only when `c`; and every glyph at its column. -/
structure Draws (S : Settings) (W : Alignment → Int) (c : Bool) (b : Bar) (D : Direct) : Prop where
  align : b.align = D.zone
  zone : D.zone ≠ .none
  xpos : b.xpos = zoneOrigin S D.zone + D.width D.zone
  font : b.preferredFont = D.font
  later : ∀ z, D.zone.rank < z.rank → D.width z = 0
  width : ∀ z, 0 ≤ D.width z ∧ D.width z ≤ W z
  glyphs : ∀ g ∈ D.glyphs, g.zone ≠ .none ∧ g.zone.rank ≤ D.zone.rank ∧ 0 ≤ g.offset ∧
    0 ≤ g.width ∧ g.offset + g.width ≤ D.width g.zone
  center : ∀ g ∈ D.glyphs, g.zone = .center → c = true
  cells : Cells S b.pixmap D

theorem Alignment.rank_lt_of_ne {z₁ z₂ : Alignment} (h : z₁.rank ≤ z₂.rank) (hne : z₁ ≠ z₂) :
    z₁.rank < z₂.rank := by
  cases z₁ <;> cases z₂ <;> simp_all [Alignment.rank]

section Invariant

variable (S : Settings) (F : Fonts) {W : Alignment → Int} {c : Bool} (hW : Ordered S W c)
  (hnn : ∀ z, 0 ≤ W z) {b : Bar} {D : Direct}

@[simp] theorem Direct.widen_zone (w : Int) : (D.widen w).zone = D.zone := rfl
@[simp] theorem Direct.widen_glyphs (w : Int) : (D.widen w).glyphs = D.glyphs := rfl
@[simp] theorem Direct.widen_font (w : Int) : (D.widen w).font = D.font := rfl

theorem Direct.widen_width (w : Int) (z : Alignment) :
    (D.widen w).width z = if z = D.zone then D.width D.zone + w else D.width z := by
  simp only [Direct.widen, Function.update_apply]

theorem Direct.widen_drawn (w : Int) (z : Alignment) :
    (D.widen w).drawn z = if z = D.zone then true else D.drawn z := by
  simp only [Direct.widen, Function.update_apply]

include hW hnn

omit hnn in
/-- A glyph of an earlier zone lies below where the current zone starts, however wide
it grows within its bound. -/
theorem Draws.column_lt (h : Draws S W c b D) {g : Placed} (hg : g ∈ D.glyphs) {k : Int}
    (hk : k < g.width) (hz : g.zone ≠ D.zone) {Y : Int} (hY : Y ≤ W D.zone)
    (hc : D.zone = .center → c = true) :
    D.column S g k < contentStart S D.zone S.borderLeft Y := by
  obtain ⟨hgz, hrank, -, -, hfit⟩ := h.glyphs g hg
  calc D.column S g k < zoneEnd S g.zone (D.width g.zone) := by
        unfold Direct.column zoneEnd; omega
    _ ≤ zoneEnd S g.zone (W g.zone) := zoneEnd_mono S (h.width _).2
    _ ≤ contentStart S D.zone S.borderLeft (W D.zone) :=
        hW.before S hgz (Alignment.rank_lt_of_ne hrank hz) (h.center g hg) hc
    _ ≤ contentStart S D.zone S.borderLeft Y := contentStart_anti S hY

/-- **`draw_shift` keeps every glyph at its column**, for the current zone widened. -/
theorem Draws.cells_shift (h : Draws S W c b D) {w : Int} (hw : 0 ≤ w)
    (hle : D.width D.zone + w ≤ W D.zone) (hc : D.zone = .center → c = true) (bg : UInt32) :
    Cells S (shiftPixmap S D.zone b.pixmap bg b.xpos w) (D.widen w) := by
  intro g hg k hk0 hkw
  obtain ⟨-, -, ho, -, hfit⟩ := h.glyphs g hg
  have hX := (h.width D.zone).1
  rw [h.xpos]
  by_cases hz : g.zone = D.zone
  · -- the current zone's content moves with it
    have h0 : 0 ≤ contentStart S D.zone S.borderLeft (D.width D.zone + w) :=
      le_trans hW.left (le_trans (hW.start_ge S hnn hc) (contentStart_anti S hle))
    have hend : zoneEnd S D.zone (D.width D.zone + w) ≤ S.width := by
      have := zoneEnd_mono S (z := D.zone) hle
      have := hW.end_le S hnn h.zone hc
      have := hW.right
      omega
    have hcol : (D.widen w).column S g k =
        contentStart S D.zone S.borderLeft (D.width D.zone + w) + (g.offset + k) := by
      simp only [Direct.column, Direct.widen_width, hz, if_true]; ring
    rw [hcol, shiftPixmap_content S h.zone hX hw (by omega) (by rw [hz] at hfit; omega) h0 hend]
    simpa only [Direct.column, hz, add_assoc] using h.cells g hg k hk0 hkw
  · -- an earlier zone lies below it
    have hcol : (D.widen w).column S g k = D.column S g k := by
      simp only [Direct.column, Direct.widen_width, hz, if_false]
    rw [hcol, shiftPixmap_below S h.zone hX hw (h.column_lt S hW hg hkw hz hle hc)]
    exact h.cells g hg k hk0 hkw

end Invariant

/-! ### The step of the invariant -/

section Steps

variable (S : Settings) (F : Fonts) {W : Alignment → Int} {c : Bool} {b : Bar} {D : Direct}

/-- A handler that keeps the zone, the cursor, the font and the pixmap keeps the
invariant. -/
theorem Draws.congr (h : Draws S W c b D) {b' : Bar} (halign : b'.align = b.align)
    (hx : b'.xpos = b.xpos) (hf : b'.preferredFont = b.preferredFont) (hp : b'.pixmap = b.pixmap) :
    Draws S W c b' D :=
  ⟨halign.trans h.align, h.zone, hx.trans h.xpos, hf.trans h.font, h.later, h.width, h.glyphs,
    h.center, hp ▸ h.cells⟩

/-- Content `w` columns wide added to the current zone, every glyph shown at its column. -/
theorem Draws.widen (h : Draws S W c b D) (b' : Bar) {w : Int} (hw : 0 ≤ w)
    (hle : D.width D.zone + w ≤ W D.zone) (halign : b'.align = b.align)
    (hx : b'.xpos = b.xpos + w) (hf : b'.preferredFont = b.preferredFont)
    (hcells : Cells S b'.pixmap (D.widen w)) : Draws S W c b' (D.widen w) where
  align := halign.trans h.align
  zone := h.zone
  xpos := by rw [hx, h.xpos, Direct.widen_zone, Direct.widen_width, if_pos rfl]; ring
  font := hf.trans h.font
  later z hz := by
    rw [Direct.widen_zone] at hz
    rw [Direct.widen_width, if_neg (by rintro rfl; omega)]
    exact h.later z hz
  width z := by
    rw [Direct.widen_width]
    split_ifs with hz
    · subst hz
      exact ⟨by have := (h.width D.zone).1; omega, hle⟩
    · exact h.width z
  glyphs g hg := by
    obtain ⟨h1, h2, h3, h4, h5⟩ := h.glyphs g hg
    refine ⟨h1, h2, h3, h4, ?_⟩
    rw [Direct.widen_width]
    split_ifs with hz
    · rw [hz] at h5; omega
    · exact h5
  center := h.center
  cells := hcells

/-- A glyph appended at the end of the current zone's content, shown at its columns. -/
theorem Draws.push (h : Draws S W c b D) (b' : Bar) {g : Placed} (hgz : g.zone = D.zone)
    (ho : 0 ≤ g.offset) (hgw : 0 ≤ g.width) (hfit : g.offset + g.width ≤ D.width D.zone)
    (hc : D.zone = .center → c = true)
    (halign : b'.align = b.align) (hx : b'.xpos = b.xpos) (hf : b'.preferredFont = b.preferredFont)
    (hcells : ∀ g' ∈ D.glyphs ++ [g], ∀ k, 0 ≤ k → k < g'.width →
      (b'.pixmap (D.column S g' k)).base = .glyph g'.ch k.toNat) :
    Draws S W c b' { D with glyphs := D.glyphs ++ [g] } where
  align := halign.trans h.align
  zone := h.zone
  xpos := hx.trans h.xpos
  font := hf.trans h.font
  later := h.later
  width := h.width
  glyphs g' hg' := by
    rcases List.mem_append.mp hg' with hg' | hg'
    · exact h.glyphs g' hg'
    · rw [List.mem_singleton.mp hg', hgz]
      exact ⟨h.zone, le_refl _, ho, hgw, hgz ▸ hfit⟩
  center g' hg' := by
    rcases List.mem_append.mp hg' with hg' | hg'
    · exact h.center g' hg'
    · rw [List.mem_singleton.mp hg', hgz]; exact hc
  cells := hcells

theorem roundWidth_nonneg (z : Alignment) (w : Nat) : 0 ≤ roundWidth z w := by
  unfold roundWidth; split <;> omega

/-- The layout `D'` is `D` grown: no zone narrower, every zone reached still reached. -/
def Direct.Grows (D D' : Direct) : Prop :=
  ∀ z, D.width z ≤ D'.width z ∧ (D.drawn z = true → D'.drawn z = true)

theorem Direct.Grows.refl (D : Direct) : D.Grows D := fun _ => ⟨le_refl _, id⟩

theorem Direct.Grows.trans {D₁ D₂ D₃ : Direct} (h₁ : D₁.Grows D₂) (h₂ : D₂.Grows D₃) : D₁.Grows D₃ :=
  fun z => ⟨(h₁ z).1.trans (h₂ z).1, (h₂ z).2 ∘ (h₁ z).2⟩

theorem Direct.grows_widen (D : Direct) {w : Int} (hw : 0 ≤ w) : D.Grows (D.widen w) := by
  intro z
  rw [Direct.widen_width, Direct.widen_drawn]
  split_ifs with hz
  · subst hz; exact ⟨by omega, fun _ => rfl⟩
  · exact ⟨le_refl _, id⟩

theorem Direct.grows_glyph (D : Direct) (ch : UInt16) : D.Grows (D.glyph F ch) := by
  unfold Direct.glyph
  split
  · exact Direct.Grows.refl D
  · exact D.grows_widen (roundWidth_nonneg D.zone _)

theorem Direct.grows_text (text : List UInt8) (D : Direct) :
    D.Grows (text.foldl (fun D c => D.glyph F (charToUInt16 c)) D) := by
  induction text generalizing D with
  | nil => exact Direct.Grows.refl D
  | cons c cs ih => exact (D.grows_glyph F _).trans (ih _)

/-- A layout only grows along a run that keeps to the order of zones. -/
theorem Direct.grows_step {D : Direct} {e : Event} (he : D.allows e = true) : D.Grows (D.step F e) := by
  cases e with
  | pixelOffset px =>
    simp only [Direct.allows, decide_eq_true_eq] at he
    exact D.grows_widen he
  | asciiTextWrite ch => exact D.grows_glyph F ch
  | unicodeTextWrite ch => exact D.grows_glyph F ch
  | stringWrite text => exact Direct.grows_text F text D
  | _ => exact Direct.Grows.refl D

theorem Direct.grows_run {D : Direct} {events : List Event} (h : D.allowsRun F events = true) :
    D.Grows (D.run F events) := by
  induction events generalizing D with
  | nil => exact Direct.Grows.refl D
  | cons e es ih =>
    simp only [Direct.allowsRun, Bool.and_eq_true] at h
    exact (Direct.grows_step F h.1).trans (ih h.2)

/-- The layout keeps within the zone widths `W`, and reaches the centre zone only when
`c`. -/
def Direct.Within (W : Alignment → Int) (c : Bool) (D : Direct) : Prop :=
  (∀ z, D.width z ≤ W z) ∧ (D.drawn .center = true → c = true)

theorem Direct.Within.of_grows {D D' : Direct} (h : D'.Within W c) (hg : D.Grows D') : D.Within W c :=
  ⟨fun z => (hg z).1.trans (h.1 z), fun hd => h.2 ((hg .center).2 hd)⟩

/-- A layout within `c` that widens its current zone, the centre one, has `c`. -/
theorem Direct.Within.widen_center {w : Int} (h : (D.widen w).Within W c) : D.zone = .center → c = true :=
  fun hz => h.2 (by rw [Direct.widen_drawn, if_pos hz.symm])

end Steps

/-! ### Every event keeps the invariant -/

section Events

variable (S : Settings) (F : Fonts) {W : Alignment → Int} {c : Bool} (hW : Ordered S W c)
  (hnn : ∀ z, 0 ≤ W z) {b : Bar} {D : Direct}
include hW hnn

omit hnn in
/-- Every glyph of the widened layout lies left of the column where the next glyph
goes. -/
theorem Draws.column_lt_next (h : Draws S W c b D) {w : Int}
    (hle : D.width D.zone + w ≤ W D.zone) (hc : D.zone = .center → c = true) {g : Placed}
    (hg : g ∈ D.glyphs) {k : Int} (hk : k < g.width) :
    (D.widen w).column S g k < contentStart S D.zone S.borderLeft (D.width D.zone + w) + D.width D.zone := by
  obtain ⟨-, -, -, -, hfit⟩ := h.glyphs g hg
  have hX := (h.width D.zone).1
  by_cases hz : g.zone = D.zone
  · simp only [Direct.column, Direct.widen_width, hz, if_true]
    rw [hz] at hfit
    omega
  · have := h.column_lt S hW hg hk hz hle hc
    simp only [Direct.column, Direct.widen_width, hz, if_false] at this ⊢
    omega

/-- **`draw_character` keeps the invariant**, with the glyph laid out at the end of
its zone. -/
theorem Draws.glyph (h : Draws S W c b D) (ch : UInt16) (hle : (D.glyph F ch).Within W c) :
    Draws S W c (drawCharacter S F b ch) (D.glyph F ch) := by
  cases hch : F.charWidth D.font ch with
  | none =>
    rw [drawCharacter_of_none S F (h.font ▸ hch)]
    simpa [Direct.glyph, hch] using h
  | some w =>
    have hb : F.charWidth b.preferredFont ch = some w := h.font ▸ hch
    have hglyph : D.glyph F ch = { D.widen (roundWidth D.zone w) with
        glyphs := D.glyphs ++ [⟨D.zone, ch, D.width D.zone, roundWidth D.zone w⟩] } := by
      simp [Direct.glyph, hch]
    have hw := roundWidth_nonneg D.zone w
    have hX := (h.width D.zone).1
    have hle' : D.width D.zone + roundWidth D.zone w ≤ W D.zone := by
      simpa [hglyph, Direct.widen_width] using hle.1 D.zone
    have hc : D.zone = .center → c = true :=
      Direct.Within.widen_center (show (D.widen (roundWidth D.zone w)).Within W c by rw [hglyph] at hle; exact hle)
    rw [hglyph]
    -- the shift: what `on_pixel_offset` would leave
    have h₁ := h.widen S (onPixelOffset S (roundWidth D.zone w) b) hw hle' rfl rfl rfl
      (by simpa only [onPixelOffset_pixmap, h.align] using h.cells_shift S hW hnn hw hle' hc (b.gcontexts .bg))
    -- the glyph at the column `draw_shift` returns
    refine h₁.push S (drawCharacter S F b ch) rfl hX hw (by simp [Direct.widen_width]) hc
      (drawCharacter_align S F hb) (by rw [drawCharacter_xpos S F hb, h.align]; rfl)
      (drawCharacter_preferredFont S F hb) ?_
    intro g hg k hk0 hkw
    rw [drawCharacter_base S F hb, h.align, h.xpos, shiftColumn_eq S h.zone hX hw]
    rcases List.mem_append.mp hg with hg | hg
    · rw [Pixmap.drawGlyph, Pixmap.paint_of_not_mem (.inl (h.column_lt_next S hW hle' hc hg hkw)),
        ← h.xpos]
      simpa only [onPixelOffset_pixmap, h.align] using h₁.cells g hg k hk0 hkw
    · rw [List.mem_singleton.mp hg] at hkw ⊢
      have h0 : 0 ≤ contentStart S D.zone S.borderLeft (D.width D.zone + roundWidth D.zone w) :=
        le_trans hW.left (le_trans (hW.start_ge S hnn hc) (contentStart_anti S hle'))
      have hend : zoneEnd S D.zone (D.width D.zone + roundWidth D.zone w) ≤ zoneEnd S D.zone (W D.zone) :=
        zoneEnd_mono S hle'
      have hin := hW.end_le S hnn h.zone hc
      have := hW.right
      unfold zoneEnd at hend hin
      simp only [Direct.column, Direct.widen_width, if_true]
      rw [Pixmap.drawGlyph_base]
      · congr 2
        ring
      all_goals simp only at hkw; omega

/-- **The step of the invariant.** Every event that keeps to the order of zones keeps
it, while the layout stays within the zone widths `W`, reaching the centre zone only
when `c`. -/
theorem Draws.step (h : Draws S W c b D) (e : Event) (he : D.allows e = true)
    (hle : (D.step F e).Within W c) : Draws S W c (handleEvent S F b e) (D.step F e) := by
  cases e with
  | alignmentChange align =>
    simp only [Direct.allows, Bool.and_eq_true, bne_iff_ne, ne_eq, decide_eq_true_eq] at he
    by_cases heq : align = b.align
    · -- the zone already entered: nothing changes
      simp only [handleEvent, onAlignmentChange, heq, if_true, Direct.step, h.align]
      exact h
    · -- a later zone, still empty
      have hlt : D.zone.rank < align.rank :=
        Alignment.rank_lt_of_ne he.2 fun h' => heq (h'.symm.trans h.align.symm)
      simp only [handleEvent, onAlignmentChange, heq, if_false]
      exact ⟨rfl, he.1, by simp [Direct.step, h.later align hlt], h.font,
        fun z hz => h.later z (hlt.trans hz), h.width,
        fun g hg => (h.glyphs g hg).imp_right fun h' => ⟨h'.1.trans hlt.le, h'.2⟩, h.center, h.cells⟩
  | attributeSet attr =>
    rw [handleEvent, onAttributeSet_eq]; exact h.congr S rfl rfl rfl rfl
  | attributeUnset attr =>
    rw [handleEvent, onAttributeUnset_eq]; exact h.congr S rfl rfl rfl rfl
  | attributeToggle attr => exact h.congr S rfl rfl rfl rfl
  | actionBlockOpen btn cmd => exact h.congr S rfl rfl rfl rfl
  | actionBlockClose btn => exact h.congr S rfl rfl rfl rfl
  | colorChange gc color => exact h.congr S rfl rfl rfl rfl
  | fontChange index =>
    exact ⟨h.align, h.zone, h.xpos, rfl, h.later, h.width, h.glyphs, h.center, h.cells⟩
  | pixelOffset px =>
    simp only [Direct.allows, decide_eq_true_eq] at he
    have hle' : D.width D.zone + px ≤ W D.zone := by
      simpa [Direct.step, Direct.widen_width] using hle.1 D.zone
    exact h.widen S _ he hle' rfl rfl rfl
      (by simpa only [handleEvent, onPixelOffset_pixmap, h.align] using
        h.cells_shift S hW hnn he hle' (Direct.Within.widen_center hle) (b.gcontexts .bg))
  | asciiTextWrite ch => exact h.glyph S F hW hnn ch hle
  | unicodeTextWrite ch => exact h.glyph S F hW hnn ch hle
  | stringWrite text =>
    show Draws S W c (drawTextstring S F b text) (text.foldl _ D)
    induction text generalizing b D with
    | nil => exact h
    | cons c cs ih =>
      exact ih (h.glyph S F hW hnn _ (hle.of_grows (Direct.grows_text F cs _))) rfl hle

/-- **The run of the invariant.** -/
theorem Draws.run (h : Draws S W c b D) (events : List Event) (hallow : D.allowsRun F events = true)
    (hle : (D.run F events).Within W c) :
    Draws S W c (runEvents S F b events) (D.run F events) := by
  induction events generalizing b D with
  | nil => exact h
  | cons e es ih =>
    simp only [Direct.allowsRun, Bool.and_eq_true] at hallow
    exact ih (h.step S F hW hnn e hallow.1 (hle.of_grows (Direct.grows_run F hallow.2))) hallow.2 hle

end Events

/-! ### A whole pass -/

section Pass

variable (S : Settings) (F : Fonts)

/-- A pass with no tray slot starts the invariant with nothing drawn. -/
theorem draws_passStart {W : Alignment → Int} {c : Bool} (hnn : ∀ z, 0 ≤ W z) (data : List Char) {b : Bar}
    (hslots : b.slots = 0) : Draws S W c (passStart S data b) (Direct.init b.preferredFont) :=
  ⟨passStart_align S data b, by simp [Direct.init], by simp [passStart_xpos, hslots, Direct.init, zoneOrigin_left],
    by simp [Direct.init], fun _ _ => rfl, fun z => ⟨le_refl 0, hnn z⟩, by simp [Direct.init],
    by simp [Direct.init], by simp [Cells, Direct.init]⟩

/-- `a%{c}b%{r}c` in 10-column glyphs: one glyph in each zone. -/
def threeZones : List Event :=
  [.asciiTextWrite 97, .alignmentChange .center, .asciiTextWrite 98, .alignmentChange .right,
    .asciiTextWrite 99]

/-- Six glyphs on the left and one on the right, with no centre zone: the left zone
runs past `base_x = 50`, and the zones are still in order. -/
example :
    let D := (Direct.init 0).run demoFonts
      (List.replicate 6 (.asciiTextWrite 97) ++ [.alignmentChange .right, .asciiTextWrite 98])
    D.width .left = 60 ∧ Ordered demoSettings D.width (D.drawn .center) :=
  ⟨by decide, by decide, by decide, nofun, nofun, by decide⟩

end Pass

/-! ### Intervals that only do not overlap -/

/-- Six 10-column glyphs on the left, then `%{c}%{O0}`. -/
def overflowLeft : List Event :=
  List.replicate 6 (.asciiTextWrite 97) ++ [.alignmentChange .center, .pixelOffset 0]

end Lemonbuddy
