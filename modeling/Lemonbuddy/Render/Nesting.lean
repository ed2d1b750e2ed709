import Lemonbuddy.Render.Actions

/-!
# Regions of one button nest

In the left zone the cursor only moves right, as long as no pixel offset is negative:
`draw_character` adds the glyph's width and `on_pixel_offset` its offset, and
`draw_shift` neither moves the cursor nor the regions there. A region opens at the
cursor and `on_action_block_close(btn)` closes the latest open region for `btn` at
the cursor. So, for one button, a region opened while another is open is closed
before it: the regions of a button form a family in which two intervals are either
one after the other or one inside the other, the enclosing one registered first
(`left_regions_nest`).

`bar::handle` takes the first region in registration order whose closed interval
holds the press. Over such a family that is the outermost region: a press inside a
region nested in an earlier one of the same button runs the earlier one's command,
and a region that follows another can lose only the column it shares with it
(`press_dispatches_outermost`).

The invariant is `LeftTable`: every region is in the left zone and started at or
before the cursor, a closed one ended between its start and the cursor, and the
table is pairwise in the relation `Nests`. Opening (`LeftTable.open`) appends a
region at the cursor, after every region it could be compared with; closing
(`LeftTable.close`) reads the backward scan through `modifyLast_spec`: the regions
before the closed one stay before it, and those after it are closed regions of the
same button, which end before the cursor, so they end up inside it.
-/

namespace Lemonbuddy

/-- An event that keeps a pass in the left zone with the cursor moving right: no
change to another zone and no negative pixel offset. -/
def staysLeft : Event → Bool
  | .alignmentChange align => align == .left
  | .pixelOffset px => decide (0 ≤ px)
  | _ => true

/-- How a region `a` and a region `a'` registered after it may sit when they have the
same button: an open `a` started no later than `a'`; a closed `a` ended before `a'`
started, or encloses `a'`, which is then closed too. -/
def Nests (a a' : ActionBlock) : Prop :=
  a.button = a'.button →
    (a.active = true → a.startX ≤ a'.startX) ∧
      (a.active = false →
        a.endX ≤ a'.startX ∨ (a'.active = false ∧ a.startX ≤ a'.startX ∧ a'.endX ≤ a.endX))

/-- The invariant of a table of left-zone regions with the cursor at `xpos`. -/
structure LeftTable (xpos : Int) (actions : List ActionBlock) : Prop where
  left : ∀ a ∈ actions, a.align = .left
  started : ∀ a ∈ actions, a.startX ≤ xpos
  ended : ∀ a ∈ actions, a.active = false → a.startX ≤ a.endX ∧ a.endX ≤ xpos
  nests : actions.Pairwise Nests

/-- A render state in the left zone whose table keeps the invariant. -/
def LeftBar (b : Bar) : Prop :=
  b.align = .left ∧ LeftTable b.xpos b.actions

/-! ### The table invariant -/

namespace LeftTable

variable {x : Int} {acts : List ActionBlock}

theorem nil (x : Int) : LeftTable x [] :=
  ⟨by simp, by simp, by simp, .nil⟩

/-- Moving the cursor right keeps the invariant. -/
theorem mono (h : LeftTable x acts) {x' : Int} (hx : x ≤ x') : LeftTable x' acts :=
  ⟨h.left, fun a ha => (h.started a ha).trans hx,
    fun a ha hc => ⟨(h.ended a ha hc).1, (h.ended a ha hc).2.trans hx⟩, h.nests⟩

/-- Opening a region at the cursor keeps the invariant: every earlier region started
at or before the cursor, and a closed one ended there at the latest. -/
theorem «open» (h : LeftTable x acts) (btn : Mousebtn) (cmd : List Char) :
    LeftTable x (acts ++ [⟨.left, openButton btn, x, 0, escapeColons cmd, true⟩]) := by
  refine ⟨by simpa [or_imp, forall_and] using h.left, by simpa [or_imp, forall_and] using h.started,
    by simpa [or_imp, forall_and] using h.ended,
    List.pairwise_append.mpr ⟨h.nests, by simp, ?_⟩⟩
  intro a ha n hn _
  rw [List.mem_singleton.mp hn]
  exact ⟨fun _ => h.started a ha, fun hc => .inl (h.ended a ha hc).2⟩

/-- A region registered before an open one stays in relation with it once it closes. -/
theorem nests_close_right {z a : ActionBlock} (ha : a.active = true) (h : Nests z a) (x : Int) :
    Nests z { a with active := false, endX := x } := by
  intro hb
  obtain ⟨h₁, h₂⟩ := h hb
  refine ⟨h₁, fun hz => ?_⟩
  rcases h₂ hz with h₂ | ⟨h₂, -⟩
  · exact .inl h₂
  · simp [ha] at h₂

/-- A closed region registered after an open one of its button, and ended before the
cursor, is enclosed by it once it closes at the cursor. -/
theorem nests_close_left {a y : ActionBlock} (ha : a.active = true) (hy : y.active = false)
    (h : Nests a y) {x : Int} (hyx : y.endX ≤ x) : Nests { a with active := false, endX := x } y := by
  intro hb
  exact ⟨by simp, fun _ => .inr ⟨hy, (h hb).1 ha, hyx⟩⟩

/-- Closing the latest open region of a button at the cursor keeps the invariant. -/
theorem close (S : Settings) (h : LeftTable x acts) (btn : Mousebtn) :
    LeftTable x (modifyLast (closes btn) (resolveAction S x) acts) := by
  rcases modifyLast_spec (closes btn) (resolveAction S x) acts with
    ⟨-, heq⟩ | ⟨pre, a, post, rfl, ha, hpost, heq⟩
  · rwa [heq]
  rw [heq]
  have hmem : a ∈ pre ++ a :: post := by simp
  have hres : resolveAction S x a = { a with active := false, endX := x } := by
    simp [resolveAction, h.left a hmem]
  rw [hres]
  obtain ⟨hact, hbtn⟩ : a.active = true ∧ a.button = btn := by simpa [closes] using ha
  have hnests := h.nests
  rw [List.pairwise_append, List.pairwise_cons] at hnests
  obtain ⟨hpre, ⟨hapost, hpost'⟩, hcross⟩ := hnests
  have hsame {y : ActionBlock} (hy : y ∈ pre ∨ y ∈ post) : y ∈ pre ++ a :: post := by
    rcases hy with hy | hy <;> simp [hy]
  have hcases {y : ActionBlock} (hy : y ∈ pre ++ { a with active := false, endX := x } :: post) :
      y ∈ pre ++ a :: post ∨ y = { a with active := false, endX := x } := by
    simp only [List.mem_append, List.mem_cons] at hy
    rcases hy with hy | rfl | hy
    exacts [.inl (hsame (.inl hy)), .inr rfl, .inl (hsame (.inr hy))]
  refine ⟨fun y hy => ?_, fun y hy => ?_, fun y hy hc => ?_,
    List.pairwise_append.mpr ⟨hpre, List.pairwise_cons.mpr ⟨?_, hpost'⟩, ?_⟩⟩
  · rcases hcases hy with hy | rfl
    exacts [h.left y hy, h.left a hmem]
  · rcases hcases hy with hy | rfl
    exacts [h.started y hy, h.started a hmem]
  · rcases hcases hy with hy | rfl
    exacts [h.ended y hy hc, ⟨h.started a hmem, le_rfl⟩]
  · intro y hy hb
    -- a later region of the same button is not open, or the scan would have closed it
    have hy' : y.active = false := by simpa [closes, hb.symm.trans hbtn] using hpost y hy
    exact nests_close_left hact hy' (hapost y hy) (h.ended y (hsame (.inr hy)) hy').2 hb
  · intro z hz w hw
    rcases List.mem_cons.mp hw with rfl | hw
    · exact nests_close_right hact (hcross z hz a (by simp)) x
    · exact hcross z hz w (by simp [hw])

end LeftTable

/-! ### A pass in the left zone -/

section Pass

variable (S : Settings) (F : Fonts)

@[simp] theorem translateActions_left (delta : Int) (actions : List ActionBlock) :
    translateActions .left delta actions = actions := by
  simp [translateActions]

theorem LeftBar.drawCharacter {b : Bar} (h : LeftBar b) (ch : UInt16) :
    LeftBar (drawCharacter S F b ch) := by
  cases hw : F.charWidth b.preferredFont ch with
  | none => rwa [drawCharacter_of_none S F hw]
  | some w =>
    refine ⟨by rw [drawCharacter_align S F hw, h.1], ?_⟩
    rw [drawCharacter_xpos S F hw, drawCharacter_actions S F hw, h.1, translateActions_left]
    exact h.2.mono (by simp [roundWidth])

/-- **The step.** Every event that stays in the left zone keeps the invariant. -/
theorem LeftBar.handleEvent {b : Bar} (h : LeftBar b) {e : Event} (he : staysLeft e = true) :
    LeftBar (handleEvent S F b e) := by
  obtain ⟨hb, ht⟩ := h
  cases e with
  | alignmentChange align =>
    have : align = .left := by simpa [staysLeft] using he
    subst this
    show LeftBar (onAlignmentChange S .left b)
    rw [onAlignmentChange, if_pos hb.symm]
    exact ⟨hb, ht⟩
  | attributeSet attr => rw [Lemonbuddy.handleEvent, onAttributeSet_eq]; exact ⟨hb, ht⟩
  | attributeUnset attr => rw [Lemonbuddy.handleEvent, onAttributeUnset_eq]; exact ⟨hb, ht⟩
  | attributeToggle attr => exact ⟨hb, ht⟩
  | actionBlockOpen btn cmd =>
    refine ⟨hb, ?_⟩
    simp only [Lemonbuddy.handleEvent, onActionBlockOpen, hb]
    exact ht.open btn cmd
  | actionBlockClose btn => exact ⟨hb, ht.close S btn⟩
  | colorChange gc color => exact ⟨hb, ht⟩
  | fontChange index => exact ⟨hb, ht⟩
  | pixelOffset px =>
    have : 0 ≤ px := by simpa [staysLeft] using he
    refine ⟨hb, ?_⟩
    simp only [Lemonbuddy.handleEvent, onPixelOffset, drawShift, hb, translateActions_left]
    exact ht.mono (by omega)
  | asciiTextWrite ch => exact LeftBar.drawCharacter S F ⟨hb, ht⟩ ch
  | unicodeTextWrite ch => exact LeftBar.drawCharacter S F ⟨hb, ht⟩ ch
  | stringWrite text =>
    show LeftBar (drawTextstring S F b text)
    clear he
    induction text generalizing b with
    | nil => exact ⟨hb, ht⟩
    | cons c cs ih =>
      obtain ⟨hb', ht'⟩ := LeftBar.drawCharacter S F ⟨hb, ht⟩ (charToUInt16 c)
      exact ih hb' ht'

/-- **The run.** -/
theorem LeftBar.runEvents {b : Bar} (h : LeftBar b) {events : List Event}
    (hleft : ∀ e ∈ events, staysLeft e = true) : LeftBar (runEvents S F b events) := by
  induction events generalizing b with
  | nil => exact h
  | cons e es ih =>
    rw [Lemonbuddy.runEvents, List.foldl_cons, ← Lemonbuddy.runEvents]
    exact ih (h.handleEvent S F (hleft e (by simp))) fun e he => hleft e (by simp [he])

/-- A pass that stays in the left zone ends with a table that keeps the invariant. -/
theorem leftTable_renderPass (data : List Char) (events : List Event) (b : Bar)
    (hleft : ∀ e ∈ events, staysLeft e = true) :
    ∃ x, LeftTable x (renderPass S F data events b).actions := by
  have hstart : LeftBar (passStart S data b) := by
    refine ⟨passStart_align S data b, ?_⟩
    rw [passStart_actions]
    exact LeftTable.nil _
  obtain ⟨hb, ht⟩ := hstart.runEvents S F hleft
  refine ⟨(runEvents S F (passStart S data b) events).xpos, ?_⟩
  rw [renderPass, passEnd_actions, hb]
  split
  · rwa [translateActions_left]
  · exact ht

end Pass

/-! ### What a pass leaves -/

section Results

variable (S : Settings) (F : Fonts)

/-- **Regions of one button nest.** After a pass that stays in the left zone, every
closed region ends at or after its start, and of two closed regions of the same
button the earlier one either ends before the later one starts or encloses it. -/
theorem left_regions_nest (data : List Char) (events : List Event) (b : Bar)
    (hleft : ∀ e ∈ events, staysLeft e = true) :
    let actions : List ActionBlock := (renderPass S F data events b).actions
    (∀ a ∈ actions, a.active = false → a.startX ≤ a.endX) ∧
      actions.Pairwise fun a a' => a.button = a'.button → a.active = false → a'.active = false →
        a.endX ≤ a'.startX ∨ (a.startX ≤ a'.startX ∧ a'.endX ≤ a.endX) := by
  obtain ⟨x, h⟩ := leftTable_renderPass S F data events b hleft
  exact ⟨fun a ha hc => (h.ended a ha hc).1,
    h.nests.imp fun hn hb ha _ => ((hn hb).2 ha).imp_right fun h => h.2⟩

/-- Two nested regions for button 1: `o` around `a`, `b`, `c`, and `i` around `b`. -/
def nestedEvents : List Event :=
  [.actionBlockOpen ⟨1⟩ ['o'], .asciiTextWrite 97, .actionBlockOpen ⟨1⟩ ['i'],
    .asciiTextWrite 98, .actionBlockClose ⟨1⟩, .asciiTextWrite 99, .actionBlockClose ⟨1⟩]

theorem left_regions_nest_nested :
    (∀ e ∈ nestedEvents, staysLeft e = true) ∧
      (renderPass demoSettings demoFonts [] nestedEvents demoBar).actions =
        [⟨.left, ⟨1⟩, 0, 30, ['o'], false⟩, ⟨.left, ⟨1⟩, 10, 20, ['i'], false⟩] ∧
      (renderPass demoSettings demoFonts [] nestedEvents demoBar).actions.Pairwise
        fun a a' => a.button = a'.button → a.active = false → a'.active = false →
          a.endX ≤ a'.startX ∨ (a.startX ≤ a'.startX ∧ a'.endX ≤ a.endX) := by
  have hleft : ∀ e ∈ nestedEvents, staysLeft e = true := by decide
  exact ⟨hleft, by decide, (left_regions_nest demoSettings demoFonts [] nestedEvents demoBar hleft).2⟩

/-- **A press runs the outermost region.** After a pass that stays in the left zone,
the region a press dispatches encloses every other closed region of its button that
holds the press's column, except one that starts exactly where it ends, at the
press. -/
theorem press_dispatches_outermost (data : List Char) (events : List Event) (b : Bar)
    (hleft : ∀ e ∈ events, staysLeft e = true) {button : Mousebtn} {x : Int} {cmd : List Char}
    (hpress : handleButtonPress (renderPass S F data events b) true button x = some cmd) :
    let actions : List ActionBlock := (renderPass S F data events b).actions
    ∃ r ∈ actions, r.command = cmd ∧ r.active = false ∧ r.button = button ∧ r.startX ≤ x ∧
      x ≤ r.endX ∧ ∀ r' ∈ actions, r'.active = false → r'.button = button → r'.startX ≤ x →
        x ≤ r'.endX → (r.startX ≤ r'.startX ∧ r'.endX ≤ r.endX) ∨ (r'.startX = x ∧ r.endX = x) := by
  obtain ⟨xpos, h⟩ := leftTable_renderPass S F data events b hleft
  simp only [handleButtonPress, if_true, Option.map_eq_some'] at hpress
  obtain ⟨r, hfind, rfl⟩ := hpress
  obtain ⟨hr, pre, post, hsplit, hpre⟩ := List.find?_eq_some.mp hfind
  simp only [Bool.and_eq_true, Bool.not_eq_true', beq_iff_eq, gt_iff_lt, decide_eq_false_iff_not,
    not_lt] at hr
  obtain ⟨⟨⟨hact, hbtn⟩, hstart⟩, hend⟩ := hr
  have hnests := h.nests
  rw [hsplit, List.pairwise_append, List.pairwise_cons] at hnests
  refine ⟨r, by simp [hsplit], rfl, hact, hbtn, hstart, hend, fun r' hr' hact' hbtn' hs' he' => ?_⟩
  rw [hsplit] at hr'
  rcases List.mem_append.mp hr' with hr' | hr'
  · -- a region before the one found fails the test
    have := hpre r' hr'
    simp [hact', hbtn'] at this
    omega
  · rcases List.mem_cons.mp hr' with rfl | hr'
    · exact .inl ⟨le_rfl, le_rfl⟩
    · rcases ((hnests.2.1.1 r' hr' (hbtn.trans hbtn'.symm)).2 hact) with h' | ⟨-, h'⟩
      · exact .inr ⟨by omega, by omega⟩
      · exact .inl h'

theorem press_dispatches_outermost_inner :
    (∀ e ∈ nestedEvents, staysLeft e = true) ∧
      handleButtonPress (renderPass demoSettings demoFonts [] nestedEvents demoBar) true ⟨1⟩ 15 =
        some ['o'] ∧
      ∃ r ∈ (renderPass demoSettings demoFonts [] nestedEvents demoBar).actions,
        r.command = ['o'] ∧ r.startX ≤ 10 ∧ 20 ≤ r.endX := by
  have hleft : ∀ e ∈ nestedEvents, staysLeft e = true := by decide
  have hpress : handleButtonPress (renderPass demoSettings demoFonts [] nestedEvents demoBar) true ⟨1⟩ 15 =
      some ['o'] := by decide
  obtain ⟨r, hr, hcmd, -, -, -, -, hout⟩ :=
    press_dispatches_outermost demoSettings demoFonts [] nestedEvents demoBar hleft hpress
  have hinner : (⟨.left, ⟨1⟩, 10, 20, ['i'], false⟩ : ActionBlock) ∈
      (renderPass demoSettings demoFonts [] nestedEvents demoBar).actions := by decide
  rcases hout _ hinner rfl rfl (by decide) (by decide) with h' | ⟨h', -⟩
  · exact ⟨hleft, hpress, r, hr, hcmd, h'⟩
  · exact absurd h' (by decide)

end Results

end Lemonbuddy
