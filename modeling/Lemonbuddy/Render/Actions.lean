import Lemonbuddy.Render.Engine

/-!
# Opening, closing and hitting action regions

`on_action_block_open(btn, cmd)` appends an open region at the cursor, recording the
button `LEFT` when it is given `NONE`. `on_action_block_close(btn)` scans the table
backwards and resolves the first open region whose recorded button equals `btn`
(`modifyLast`). `bar::handle(button_press)` scans it forwards and dispatches the
command of the first closed region for the button with `start_x <= x <= end_x`.

The facts about the scans are proved once, for `modifyFirst` and `modifyLast`
(`modifyFirst_spec`, `modifyLast_spec`, `modifyLast_append`, `modifyLast_map`), and
read off for the handlers:

* `onActionBlockClose_spec`: a close resolves exactly the latest open region whose
  recorded button is the argument, and nothing else;
* `close_none_leaves_open`: the argument is compared unnormalised, so a close for
  `NONE` never finds the region an open for `NONE` recorded as `LEFT`;
* `hit_shared_column`: the hit test selects by the closed interval
  `[start_x, end_x]`, so at the column `end_x` shared by two adjacent regions it
  picks the first.
-/

namespace Lemonbuddy

/-! ### The scans -/

section Scans

variable {α β : Type} {p : α → Bool} {f : α → α}

theorem modifyFirst_of_forall_false {l : List α} (h : ∀ x ∈ l, p x = false) :
    modifyFirst p f l = l := by
  induction l with
  | nil => rfl
  | cons a as ih => simp [modifyFirst, h a (by simp), ih fun x hx => h x (by simp [hx])]

theorem modifyFirst_append (l₁ l₂ : List α) :
    modifyFirst p f (l₁ ++ l₂) = if l₁.any p then modifyFirst p f l₁ ++ l₂ else l₁ ++ modifyFirst p f l₂ := by
  induction l₁ with
  | nil => simp
  | cons a as ih => by_cases ha : p a <;> simp [modifyFirst, ha, ih]; split <;> rfl

/-- **The forward scan.** Either nothing satisfies `p` and the list is unchanged, or
the first element that does is replaced by `f` of it. -/
theorem modifyFirst_spec (p : α → Bool) (f : α → α) (l : List α) :
    ((∀ x ∈ l, p x = false) ∧ modifyFirst p f l = l) ∨
      ∃ pre a post, l = pre ++ a :: post ∧ (∀ x ∈ pre, p x = false) ∧ p a = true ∧
        modifyFirst p f l = pre ++ f a :: post := by
  induction l with
  | nil => exact .inl ⟨by simp, rfl⟩
  | cons a as ih =>
    by_cases ha : p a
    · exact .inr ⟨[], a, as, rfl, by simp, ha, by simp [modifyFirst, ha]⟩
    · rcases ih with ⟨hall, heq⟩ | ⟨pre, x, post, rfl, hpre, hx, heq⟩
      · exact .inl ⟨by simp_all, by simp [modifyFirst, ha, heq]⟩
      · refine .inr ⟨a :: pre, x, post, rfl, by simp_all, hx, ?_⟩
        simp [modifyFirst, ha, heq]

/-- **The backward scan.** Either nothing satisfies `p` and the list is unchanged, or
the last element that does is replaced by `f` of it. -/
theorem modifyLast_spec (p : α → Bool) (f : α → α) (l : List α) :
    ((∀ x ∈ l, p x = false) ∧ modifyLast p f l = l) ∨
      ∃ pre a post, l = pre ++ a :: post ∧ p a = true ∧ (∀ x ∈ post, p x = false) ∧
        modifyLast p f l = pre ++ f a :: post := by
  rcases modifyFirst_spec p f l.reverse with ⟨hall, heq⟩ | ⟨pre, a, post, hl, hpre, ha, heq⟩
  · exact .inl ⟨by simpa using hall, by simp [modifyLast, heq]⟩
  · refine .inr ⟨post.reverse, a, pre.reverse, ?_, ha, by simpa using hpre, ?_⟩
    · rw [← List.reverse_reverse l, hl]; simp
    · simp [modifyLast, heq]

theorem modifyLast_append {l₁ l₂ : List α} (h : ∀ x ∈ l₁, p x = false) :
    modifyLast p f (l₁ ++ l₂) = l₁ ++ modifyLast p f l₂ := by
  have h₁ : l₁.reverse.any p = false := by simpa using h
  by_cases h₂ : l₂.reverse.any p
  · simp [modifyLast, modifyFirst_append, h₂]
  · have h₂' : ∀ x ∈ l₂.reverse, p x = false := by simpa using h₂
    simp [modifyLast, modifyFirst_append, h₂, modifyFirst_of_forall_false h₂',
      modifyFirst_of_forall_false (show ∀ x ∈ l₁.reverse, p x = false by simpa using h)]

theorem modifyFirst_map {q : β → Bool} {f' : β → β} (g : β → α) {l : List β}
    (hp : ∀ x ∈ l, p (g x) = q x) (hf : ∀ x ∈ l, q x = true → f (g x) = g (f' x)) :
    modifyFirst p f (l.map g) = (modifyFirst q f' l).map g := by
  induction l with
  | nil => rfl
  | cons a as ih =>
    have ih' := ih (fun x hx => hp x (by simp [hx])) (fun x hx => hf x (by simp [hx]))
    by_cases ha : q a <;> simp [modifyFirst, hp a (by simp), ha, hf a (by simp), ih']

/-- The backward scan commutes with a map that carries the predicate and the update on
the list's elements. -/
theorem modifyLast_map {q : β → Bool} {f' : β → β} (g : β → α) {l : List β}
    (hp : ∀ x ∈ l, p (g x) = q x) (hf : ∀ x ∈ l, q x = true → f (g x) = g (f' x)) :
    modifyLast p f (l.map g) = (modifyLast q f' l).map g := by
  simp only [modifyLast, ← List.map_reverse]
  rw [modifyFirst_map g (fun x hx => hp x (List.mem_reverse.mp hx))
    (fun x hx => hf x (List.mem_reverse.mp hx)), List.map_reverse]

/-- Everything the backward scan returns was in the list, or is the update of
something that was. -/
theorem mem_modifyLast {l : List α} {x : α} (h : x ∈ modifyLast p f l) :
    x ∈ l ∨ ∃ y ∈ l, x = f y := by
  rcases modifyLast_spec p f l with ⟨-, heq⟩ | ⟨pre, a, post, rfl, -, -, heq⟩
  · exact .inl (heq ▸ h)
  · rw [heq] at h
    simp only [List.mem_append, List.mem_cons] at h
    rcases h with h | rfl | h
    · exact .inl (by simp [h])
    · exact .inr ⟨a, by simp, rfl⟩
    · exact .inl (by simp [h])

end Scans

/-! ### Closing a region -/

section Close

variable (S : Settings) (F : Fonts)

@[simp] theorem resolveAction_active (xpos : Int) (a : ActionBlock) :
    (resolveAction S xpos a).active = false := by
  unfold resolveAction; split_ifs <;> rfl

@[simp] theorem resolveAction_button (xpos : Int) (a : ActionBlock) :
    (resolveAction S xpos a).button = a.button := by
  unfold resolveAction; split_ifs <;> rfl

@[simp] theorem resolveAction_command (xpos : Int) (a : ActionBlock) :
    (resolveAction S xpos a).command = a.command := by
  unfold resolveAction; split_ifs <;> rfl

@[simp] theorem resolveAction_align (xpos : Int) (a : ActionBlock) :
    (resolveAction S xpos a).align = a.align := by
  unfold resolveAction; split_ifs <;> rfl

theorem closes_eq_true {btn : Mousebtn} {a : ActionBlock} :
    closes btn a = true ↔ a.active = true ∧ a.button = btn := by
  simp [closes]

/-- **Closing.** `on_action_block_close(btn)` resolves exactly the latest open region
whose recorded button is `btn`, at the cursor, and changes no other region; when there
is none it changes nothing. -/
theorem onActionBlockClose_spec (btn : Mousebtn) (b : Bar) :
    ((∀ a ∈ b.actions, ¬(a.active = true ∧ a.button = btn)) ∧
        (onActionBlockClose S btn b).actions = b.actions) ∨
      ∃ pre a post, b.actions = pre ++ a :: post ∧ a.active = true ∧ a.button = btn ∧
        (∀ x ∈ post, ¬(x.active = true ∧ x.button = btn)) ∧
        (onActionBlockClose S btn b).actions = pre ++ resolveAction S b.xpos a :: post := by
  rcases modifyLast_spec (closes btn) (resolveAction S b.xpos) b.actions with
    ⟨hall, heq⟩ | ⟨pre, a, post, hl, ha, hpost, heq⟩
  · refine .inl ⟨fun a ha => ?_, heq⟩
    rw [← closes_eq_true]; simp [hall a ha]
  · rw [closes_eq_true] at ha
    refine .inr ⟨pre, a, post, hl, ha.1, ha.2, fun x hx => ?_, heq⟩
    rw [← closes_eq_true]; simp [hpost x hx]

example :
    let S : Settings := ⟨100, 0, 0, 0, 0, 0, .none, 0, 0⟩
    let b := onActionBlockOpen .left [] (Bar.bootstrap ⟨.empty, .empty, .empty, .empty, .empty,
      .empty, .empty⟩ 0 fun _ => Cell.ofFill 0)
    (onActionBlockClose S .left b).actions = [⟨.left, .left, 0, 0, [], false⟩] := by
  decide

/-- **A close for `NONE` misses the open for `NONE`.** At the start of any pass, the
events `action_block_open(NONE, cmd)` and `action_block_close(NONE)` leave the region
open: the open recorded the button as `LEFT`, the close compares `NONE`. -/
theorem close_none_leaves_open (data cmd : List Char) (b : Bar) :
    (runEvents S F (passStart S data b) [.actionBlockOpen .none cmd, .actionBlockClose .none]).actions =
      [⟨.left, .left, (passStart S data b).xpos, 0, escapeColons cmd, true⟩] := by
  simp [runEvents, handleEvent, onActionBlockOpen, onActionBlockClose, openButton,
    modifyLast, modifyFirst, closes, Mousebtn.none, Mousebtn.left]

end Close

/-! ### A demo bar -/

/-- A bar of width 100 with no borders and no tray, every glyph 10 columns wide. -/
def demoSettings : Settings := ⟨100, 0, 0, 0, 0, 0, .none, 0, 0⟩

/-- Every character 10 columns wide. -/
def demoFonts : Fonts := ⟨fun _ _ => some 10⟩

/-- A bar just bootstrapped with transparent black everywhere. -/
def demoBar : Bar :=
  Bar.bootstrap ⟨.empty, .empty, .empty, .empty, .empty, .empty, .empty⟩ 0 fun _ => Cell.ofFill 0

/-! ### Matched brackets -/

section Brackets

variable (S : Settings) (F : Fonts)

/-- The open regions that a close for `btn` may close. -/
def openCount (btn : Mousebtn) (actions : List ActionBlock) : Nat :=
  actions.countP (closes btn)

/-- The matching of opens and closes by the buttons written in them: the buttons of
the opens not yet closed after the events, each close taking one open of its button,
or `none` when a close finds no open of its button. -/
def pendingAfter (pending : List Mousebtn) : List Event → Option (List Mousebtn)
  | [] => some pending
  | .actionBlockOpen btn _ :: es => pendingAfter (btn :: pending) es
  | .actionBlockClose btn :: es => if btn ∈ pending then pendingAfter (pending.erase btn) es else none
  | _ :: es => pendingAfter pending es

theorem openCount_translateActions (btn : Mousebtn) (z : Alignment) (delta : Int)
    (actions : List ActionBlock) :
    openCount btn (translateActions z delta actions) = openCount btn actions := by
  unfold openCount translateActions
  split
  · rfl
  · rw [List.countP_map]
    congr 1
    funext a
    by_cases h : a.active = true ∨ a.align ≠ z <;> simp [closes, h]

/-- Every event but an open or a close keeps the open regions of every button. -/
theorem openCount_handleEvent (btn : Mousebtn) (b : Bar) (e : Event)
    (ho : ∀ btn' cmd, e ≠ .actionBlockOpen btn' cmd) (hc : ∀ btn', e ≠ .actionBlockClose btn') :
    openCount btn (handleEvent S F b e).actions = openCount btn b.actions := by
  have hchar : ∀ (b : Bar) ch, openCount btn (drawCharacter S F b ch).actions = openCount btn b.actions := by
    intro b ch
    cases hw : F.charWidth b.preferredFont ch with
    | none => rw [drawCharacter_of_none S F hw]
    | some w => rw [drawCharacter_actions S F hw, openCount_translateActions]
  cases e with
  | alignmentChange align => simp only [handleEvent, onAlignmentChange]; split <;> rfl
  | attributeSet attr => rw [handleEvent, onAttributeSet_eq]
  | attributeUnset attr => rw [handleEvent, onAttributeUnset_eq]
  | actionBlockOpen btn' cmd => exact absurd rfl (ho btn' cmd)
  | actionBlockClose btn' => exact absurd rfl (hc btn')
  | pixelOffset px => exact openCount_translateActions _ _ _ _
  | asciiTextWrite ch => exact hchar b ch
  | unicodeTextWrite ch => exact hchar b ch
  | stringWrite text =>
    clear ho hc
    show openCount btn (drawTextstring S F b text).actions = _
    induction text generalizing b with
    | nil => rfl
    | cons c cs ih => exact (ih _).trans (hchar b _)
  | _ => rfl

/-- An open for a button other than `NONE` adds one open region for it. -/
theorem openCount_open (btn btn' : Mousebtn) (hbtn : btn' ≠ .none) (cmd : List Char) (b : Bar) :
    openCount btn (onActionBlockOpen btn' cmd b).actions =
      openCount btn b.actions + if btn' = btn then 1 else 0 := by
  simp only [onActionBlockOpen, openButton, hbtn, if_false, openCount, List.countP_append,
    List.countP_singleton, closes, Bool.true_and, beq_iff_eq]

/-- A close for a button with an open region closes exactly one of them. -/
theorem openCount_close (btn btn' : Mousebtn) (b : Bar) (hpos : 0 < openCount btn' b.actions) :
    openCount btn (onActionBlockClose S btn' b).actions =
      openCount btn b.actions - if btn' = btn then 1 else 0 := by
  rcases modifyLast_spec (closes btn') (resolveAction S b.xpos) b.actions with
    ⟨hall, -⟩ | ⟨pre, a, post, hl, ha, -, heq⟩
  · rw [openCount, List.countP_pos_iff] at hpos
    obtain ⟨a, ha, hc⟩ := hpos
    exact absurd (hall a ha) (by simp [hc])
  · have hb : a.button = btn' := by simp [closes] at ha; exact ha.2
    have hres : closes btn (resolveAction S b.xpos a) = false := by simp [closes]
    have hact : closes btn a = (btn' == btn) := by
      simp only [closes, hb]; simp [closes] at ha; simp [ha.1]
    simp only [onActionBlockClose, openCount]
    rw [heq, hl, List.countP_append, List.countP_append, List.countP_cons, List.countP_cons, hres, hact]
    by_cases h : btn' = btn <;> simp [h]

/-- **The run of the matching.** Along events whose opens are not for `NONE` and that
the matching accepts, every button has as many open regions as open brackets. -/
theorem openCount_run (b : Bar) (pending : List Mousebtn) (events : List Event)
    (hopen : ∀ btn cmd, Event.actionBlockOpen btn cmd ∈ events → btn ≠ .none)
    (hcount : ∀ btn, pending.count btn = openCount btn b.actions) {rest : List Mousebtn}
    (hrun : pendingAfter pending events = some rest) :
    ∀ btn, rest.count btn = openCount btn (runEvents S F b events).actions := by
  induction events generalizing b pending with
  | nil => simp only [pendingAfter, Option.some.injEq] at hrun; subst hrun; exact hcount
  | cons e es ih =>
    have hopen' : ∀ btn cmd, Event.actionBlockOpen btn cmd ∈ es → btn ≠ .none :=
      fun btn cmd h => hopen btn cmd (List.mem_cons_of_mem _ h)
    cases e with
    | actionBlockOpen btn' cmd =>
      refine ih (onActionBlockOpen btn' cmd b) (btn' :: pending) hopen' (fun btn => ?_) hrun
      rw [openCount_open btn btn' (hopen btn' cmd (List.mem_cons_self _ _)), ← hcount, List.count_cons]
      simp [beq_iff_eq]
    | actionBlockClose btn' =>
      simp only [pendingAfter] at hrun
      split at hrun
      · rename_i hmem
        have hpos : 0 < openCount btn' b.actions := hcount btn' ▸ List.count_pos_iff.mpr hmem
        refine ih (onActionBlockClose S btn' b) (pending.erase btn') hopen' (fun btn => ?_) hrun
        rw [openCount_close S btn btn' b hpos, ← hcount, List.count_erase]
        by_cases h : btn' = btn <;> simp [h]
      · cases hrun
    | _ =>
      exact ih _ pending hopen' (fun btn => (hcount btn).trans
        (openCount_handleEvent S F btn b _ (by intros; exact nofun) (by intros; exact nofun)).symm) hrun

/-- **Matched brackets leave no region open.** A pass whose events match every close
with an earlier unmatched open of the same button, and close every open, leaves
every region closed, provided no open is for `NONE`. -/
theorem matched_brackets_all_closed (data : List Char) (b : Bar) (events : List Event)
    (hopen : ∀ btn cmd, Event.actionBlockOpen btn cmd ∈ events → btn ≠ .none)
    (hmatched : pendingAfter [] events = some []) :
    ∀ a ∈ (renderPass S F data events b).actions, a.active = false := by
  have hrun := openCount_run S F (passStart S data b) [] events hopen (by simp [openCount]) hmatched
  have hend : ∀ btn, openCount btn (renderPass S F data events b).actions = 0 := fun btn => by
    rw [renderPass, passEnd_actions]
    split <;> simp only [openCount_translateActions, ← hrun btn, List.count_nil]
  intro a ha
  by_contra hact
  have : 0 < openCount a.button (renderPass S F data events b).actions :=
    List.countP_pos_iff.mpr ⟨a, ha, by simpa [closes] using hact⟩
  exact absurd (hend a.button) this.ne'

theorem matched_brackets_all_closed_two_buttons :
    let events : List Event := [.actionBlockOpen ⟨1⟩ ['a'], .actionBlockOpen ⟨3⟩ ['b'],
      .actionBlockClose ⟨1⟩, .asciiTextWrite 97, .actionBlockClose ⟨3⟩]
    pendingAfter [] events = some [] ∧
      (renderPass demoSettings demoFonts [] events demoBar).actions.all (fun a => !a.active) = true := by
  intro events
  have hopen : ∀ btn cmd, Event.actionBlockOpen btn cmd ∈ events → btn ≠ .none := by
    intro btn cmd h
    simp only [events, List.mem_cons, Event.actionBlockOpen.injEq, reduceCtorEq, List.mem_nil_iff,
      or_false, false_or] at h
    rcases h with ⟨rfl, -⟩ | ⟨rfl, -⟩ <;> decide
  have hmatched : pendingAfter [] events = some [] := by decide
  refine ⟨hmatched, List.all_eq_true.mpr fun a ha => ?_⟩
  simp [matched_brackets_all_closed demoSettings demoFonts [] demoBar events hopen hmatched a ha]

end Brackets

/-! ### Hit testing -/

/-- The half-open reading of the hit test: `start_x <= x < end_x`. -/
def hitRegionHalfOpen (actions : List ActionBlock) (button : Mousebtn) (x : Int) :
    Option ActionBlock :=
  actions.find? fun a => !a.active && a.button == button && decide (a.startX ≤ x) && decide (x < a.endX)

/-- **The shared column.** Two adjacent regions for button 1, `a` then `b`, drawn by
`%{A1:a:}a%{A}%{A1:b:}b%{A}`: a press at column 10, the first column of `b`, runs
`a`, where the half-open intervals `[0, 10)` and `[10, 20)` select `b`. -/
theorem hit_shared_column :
    let b : Bar := renderPass demoSettings demoFonts [] [.actionBlockOpen ⟨1⟩ ['a'],
      .asciiTextWrite 97, .actionBlockClose ⟨1⟩, .actionBlockOpen ⟨1⟩ ['b'], .asciiTextWrite 98,
      .actionBlockClose ⟨1⟩] demoBar
    b.actions = [⟨.left, ⟨1⟩, 0, 10, ['a'], false⟩, ⟨.left, ⟨1⟩, 10, 20, ['b'], false⟩] ∧
      handleButtonPress b true ⟨1⟩ 10 = some ['a'] ∧
      (hitRegionHalfOpen b.actions ⟨1⟩ 10).map (·.command) = some ['b'] := by
  decide

end Lemonbuddy
