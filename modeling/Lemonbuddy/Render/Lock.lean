import Lemonbuddy.Render.Threads
import Lemonbuddy.Controller

/-!
# The bar's lock

`bar::parse` holds the spin lock `m_lock` for its whole body, and so does
`bar::handle(button_press)` once the throttler lets the press through; nothing else
takes it. Three threads reach the bar:

* the event loop, on the main thread, hands each new content to `bar::parse` from
  `controller::on_update`;
* the tray thread reports slot counts through `bar::on_tray_report`, which writes
  `m_tray.slots`, reads `m_prevdata` and copies it without the lock, and only then
  calls `parse(m_prevdata, true)`;
* the thread `controller::run` starts for `wait_for_xevent` dispatches X events: a
  button press to `bar::handle(button_press)`, whose `action_click` callback is
  `controller::on_mouse_event`, which puts an input entry on the event loop's queue;
  an expose to `bar::handle(expose)`, which calls `flush()` without the lock.

`Process` is the bar with its lock and where each thread stands, and `Process.step`
one step of a thread. A pass is not one step here, as it is in `Threads`: its start
(the test of `m_prevdata`, the reset, the background, the reservation for a tray on
the left), each event of the parser, and its close (the shift for a tray on the
right, the borders, the flush) are steps of their own, and the other threads run
between them. A thread that wants the lock while another holds it spins: its step
changes nothing. Run alone, the main thread's steps for one content are `bar::parse`
(`Process.run_main_eq_parse`), and the tray thread's from its copy are the forced
`parse` (`Process.run_tray_eq_parse`). Every interleaving of `Threads`, where a pass
is one step, is therefore one of this model (`threads_runs_realized`).

What the lock guarantees (`Process.Inv`, kept by every step and so by every run):

* at most one pass is in progress, and the lock is held exactly while one is
  (`passes_exclusive`);
* a press is looked up with the lock free, so every input entry on the queue was put
  there by the X event thread's step for one press, from a state the interleaving
  reached, with the lock free and the bar's table that of a finished pass over the
  bar's last content; the entry holds the command that table gives for that press's
  button and column (`clicks_use_finished_table`);
* between passes the window shows the pixmap, and when the tray thread is between
  reports too, the bar is one render pass of its last content with the current slot
  count (`settled_between_passes`): `tray_layout_consistent` holds with the passes cut
  into their steps.

What it does not guarantee: `flush()` for an expose reads the pixmap while a pass
draws it, so an expose in the middle of a pass puts a half-drawn frame on the window
(`expose_shows_partial_pass`).

A step reads `m_tray.slots` once where the close of a pass reads it twice, in its
test and in the width of the shift; a report between the two reads is not modelled.
`action_click` is taken to be bound, as `controller::bootstrap` binds it when it
does not write the bar's output to stdout.
-/

namespace Lemonbuddy

/-- An X event the event thread dispatches to the bar: a button press, with whether
the throttler lets it through, its button and its column; or an expose, with whether
it is for the bar's window. -/
inductive XEvent
  | buttonPress (passes : Bool) (button : Mousebtn) (x : Int)
  | expose (ours : Bool)
  deriving DecidableEq, Repr

/-- Where the tray thread stands in `bar::on_tray_report`: the steps before the lock,
as in `TrayPc`, then its forced pass with the events it has left to draw. -/
inductive ReportPc
  | idle
  | wrote
  | checked
  | copied (data : List Char)
  | drawing (events : List Event)

/-- The tray thread is in its forced pass. -/
def ReportPc.busy : ReportPc → Bool
  | .drawing _ => true
  | _ => false

/-- The tray thread has no redraw to come: it is between reports, or drawing. -/
def ReportPc.quiet : ReportPc → Bool
  | .idle | .drawing _ => true
  | _ => false

/-- The bar, its lock, and what each thread has left to do: the contents the event
loop will hand to `bar::parse` and the events of its pass in progress, the slot
counts the tray will report and where it stands, the X events still to dispatch, and
the input entries clicks have put on the event loop's queue. -/
structure Process where
  bar : Bar
  lock : Bool
  updates : List (List Char)
  main : Option (List Event)
  reports : List Nat
  tray : ReportPc
  xevents : List XEvent
  queue : List Controller.Entry

/-- The three threads that reach the bar. -/
inductive Worker
  | main
  | tray
  | xevent
  deriving DecidableEq, Repr

section Steps

variable (S : Settings) (F : Fonts) (markup : List Char → List Event) (dataSize : Nat)

/-- One step of a thread. The main thread starts a pass for its next content when the
lock is free and the content is new, then draws its events one by one, then closes
it. The tray thread compares and writes the slot count, tests and copies
`m_prevdata`, then draws the copy under the lock the same way. The X event thread
looks a press up under the lock, and flushes for an expose without it. -/
def Process.step (t : Process) : Worker → Process
  | .main =>
    match t.main, t.updates with
    | none, [] => t
    | none, d :: ds =>
      if t.lock then t
      else if d = t.bar.prevdata then { t with updates := ds }
      else { t with bar := passStart S d t.bar, lock := true, main := some (markup d), updates := ds }
    | some (e :: es), _ => { t with bar := handleEvent S F t.bar e, main := some es }
    | some [], _ => { t with bar := passEnd S t.bar, lock := false, main := none }
  | .tray =>
    match t.tray, t.reports with
    | .idle, [] => t
    | .idle, n :: ns =>
      if t.bar.slots = n then { t with reports := ns }
      else { t with bar := { t.bar with slots := n }, reports := ns, tray := .wrote }
    | .wrote, _ => if t.bar.prevdata ≠ [] then { t with tray := .checked } else { t with tray := .idle }
    | .checked, _ => { t with tray := .copied t.bar.prevdata }
    | .copied d, _ =>
      if t.lock then t
      else { t with bar := passStart S d t.bar, lock := true, tray := .drawing (markup d) }
    | .drawing (e :: es), _ => { t with bar := handleEvent S F t.bar e, tray := .drawing es }
    | .drawing [], _ => { t with bar := passEnd S t.bar, lock := false, tray := .idle }
  | .xevent =>
    match t.xevents with
    | [] => t
    | .buttonPress passes button x :: xs =>
      if passes && t.lock then t
      else { t with xevents := xs,
                    queue := (handleButtonPress t.bar passes button x).elim t.queue
                      (Controller.onMouseEvent dataSize t.queue) }
    | .expose ours :: xs => { t with bar := if ours then flush t.bar else t.bar, xevents := xs }

/-- A schedule of the three threads, played step by step. -/
def Process.run (t : Process) (schedule : List Worker) : Process :=
  schedule.foldl (Process.step S F markup dataSize) t

/-- The process `controller::run` starts: the bar as `bootstrap` leaves it, the lock
free, every thread waiting for work, and no input entry yet. -/
def Process.start (colors : BarColors) (defaultFont : Int) (pixmap : Pixmap)
    (updates : List (List Char)) (reports : List Nat) (xevents : List XEvent) : Process :=
  ⟨Bar.bootstrap colors defaultFont pixmap, false, updates, none, reports, .idle, xevents, []⟩

theorem Process.run_cons (t : Process) (w : Worker) (ws : List Worker) :
    Process.run S F markup dataSize t (w :: ws) =
      Process.run S F markup dataSize (Process.step S F markup dataSize t w) ws := rfl

theorem Process.run_append (t : Process) (s₁ s₂ : List Worker) :
    Process.run S F markup dataSize t (s₁ ++ s₂) =
      Process.run S F markup dataSize (Process.run S F markup dataSize t s₁) s₂ :=
  List.foldl_append _ _ _ _

/-- The main thread drawing the events `pre` of its pass, uninterrupted. -/
theorem Process.run_main_events (t : Process) (pre rest : List Event) (h : t.main = some (pre ++ rest)) :
    Process.run S F markup dataSize t (List.replicate pre.length .main) =
      { t with bar := runEvents S F t.bar pre, main := some rest } := by
  induction pre generalizing t with
  | nil => obtain ⟨⟩ := t; simp only at h; subst h; rfl
  | cons e es ih =>
    obtain ⟨b, lock, updates, main, reports, tray, xevents, queue⟩ := t
    simp only at h
    subst h
    exact ih _ rfl

/-- **The lock model refines `bar::parse`.** Run alone, the main thread's steps for a
new content are `bar::parse`: the start, one step per event, and the close. -/
theorem Process.run_main_eq_parse (t : Process) {d : List Char} {ds : List (List Char)}
    (hmain : t.main = none) (hupd : t.updates = d :: ds) (hlock : t.lock = false)
    (hd : d ≠ t.bar.prevdata) :
    Process.run S F markup dataSize t (List.replicate ((markup d).length + 2) .main) =
      { t with bar := parse S F markup d false t.bar, updates := ds } := by
  obtain ⟨b, lock, updates, main, reports, tray, xevents, queue⟩ := t
  simp only at hmain hupd hlock hd
  subst hmain hupd hlock
  have hstart : Process.step S F markup dataSize ⟨b, false, d :: ds, none, reports, tray, xevents, queue⟩ .main =
      ⟨passStart S d b, true, ds, some (markup d), reports, tray, xevents, queue⟩ := by
    simp [Process.step, hd]
  rw [List.replicate_succ', List.replicate_succ, List.cons_append, Process.run_cons, hstart,
    Process.run_append, Process.run_main_events S F markup dataSize _ (markup d) [] (by simp)]
  simp [Process.run, Process.step, parse, hd, renderPass]

/-- The tray thread drawing the events `pre` of its forced pass, uninterrupted. -/
theorem Process.run_tray_events (t : Process) (pre rest : List Event) (h : t.tray = .drawing (pre ++ rest)) :
    Process.run S F markup dataSize t (List.replicate pre.length .tray) =
      { t with bar := runEvents S F t.bar pre, tray := .drawing rest } := by
  induction pre generalizing t with
  | nil => obtain ⟨⟩ := t; simp only at h; subst h; rfl
  | cons e es ih =>
    obtain ⟨b, lock, updates, main, reports, tray, xevents, queue⟩ := t
    simp only at h
    subst h
    exact ih _ rfl

/-- Run alone from its copy, the tray thread's steps are the forced `bar::parse`. -/
theorem Process.run_tray_eq_parse (t : Process) {d : List Char} (htray : t.tray = .copied d)
    (hlock : t.lock = false) :
    Process.run S F markup dataSize t (List.replicate ((markup d).length + 2) .tray) =
      { t with bar := parse S F markup d true t.bar, tray := .idle } := by
  obtain ⟨b, lock, updates, main, reports, tray, xevents, queue⟩ := t
  simp only at htray hlock
  subst htray hlock
  have hstart : Process.step S F markup dataSize ⟨b, false, updates, main, reports, .copied d, xevents, queue⟩ .tray =
      ⟨passStart S d b, true, updates, main, reports, .drawing (markup d), xevents, queue⟩ := by
    simp [Process.step]
  rw [List.replicate_succ', List.replicate_succ, List.cons_append, Process.run_cons, hstart,
    Process.run_append, Process.run_tray_events S F markup dataSize _ (markup d) [] (by simp)]
  simp [Process.run, Process.step, parse_force, renderPass]

end Steps

/-! ### The two-thread model inside the lock model -/

section Embed

variable (S : Settings) (F : Fonts) (markup : List Char → List Event) (dataSize : Nat)

/-- A place of the tray thread in `Threads`, as a place in `Process`. -/
def TrayPc.toReport : TrayPc → ReportPc
  | .idle => .idle
  | .wrote => .wrote
  | .checked => .checked
  | .copied d => .copied d

/-- A state of `Threads` as a state of `Process`: the lock free, no pass in progress,
and no X event. -/
def Threads.embed (t : Threads) : Process :=
  ⟨t.bar, false, t.updates, none, t.reports, t.pc.toReport, [], []⟩

/-- Every step of `Threads` is played by some steps of `Process`: a whole pass by its
start, its events and its close. -/
theorem Threads.step_realized (t : Threads) (th : Thread) :
    ∃ ws : List Worker, Process.run S F markup dataSize t.embed ws = (Threads.step S F markup t th).embed := by
  obtain ⟨b, updates, reports, pc⟩ := t
  cases th with
  | main =>
    cases updates with
    | nil => exact ⟨[], rfl⟩
    | cons d ds =>
      by_cases hd : d = b.prevdata
      · exact ⟨[.main], by simp [Process.run, Process.step, Threads.step, Threads.embed, parse, hd]⟩
      · exact ⟨_, Process.run_main_eq_parse S F markup dataSize _ rfl rfl rfl hd⟩
  | tray =>
    cases pc with
    | idle =>
      cases reports with
      | nil => exact ⟨[], rfl⟩
      | cons n ns =>
        refine ⟨[.tray], ?_⟩
        by_cases hn : b.slots = n <;> simp [Process.run, Process.step, Threads.step, Threads.embed, hn, TrayPc.toReport]
    | wrote =>
      refine ⟨[.tray], ?_⟩
      by_cases hd : b.prevdata = [] <;> simp [Process.run, Process.step, Threads.step, Threads.embed, hd, TrayPc.toReport]
    | checked => exact ⟨[.tray], rfl⟩
    | copied d => exact ⟨_, Process.run_tray_eq_parse S F markup dataSize (Threads.embed ⟨b, updates, reports, .copied d⟩) rfl rfl⟩

/-- **The two-thread model is inside the lock model.** Every interleaving of
`Threads`, where a pass is one step, is played by a schedule of `Process`, where
passes are cut into their steps and the lock is taken: what `Threads` shows, the lost
update of `tray_redraw_loses_update` among it, happens in the lock model too. -/
theorem threads_runs_realized (t : Threads) (schedule : List Thread) :
    ∃ ws : List Worker, Process.run S F markup dataSize t.embed ws = (Threads.run S F markup t schedule).embed := by
  induction schedule generalizing t with
  | nil => exact ⟨[], rfl⟩
  | cons th ths ih =>
    obtain ⟨ws₁, h₁⟩ := Threads.step_realized S F markup dataSize t th
    obtain ⟨ws₂, h₂⟩ := ih (Threads.step S F markup t th)
    exact ⟨ws₁ ++ ws₂, by rw [Process.run_append, h₁, h₂]; rfl⟩

end Embed

/-! ### What the other threads write during a pass -/

section Frame

variable (S : Settings) (F : Fonts)

/-- The bar with the two fields another thread writes during a pass replaced: the slot
count, by a tray report, and the window, by an expose. -/
def Bar.reframe (b : Bar) (slots : Nat) (window : Pixmap) : Bar :=
  { b with slots := slots, window := window }

@[simp] theorem Bar.reframe_prevdata (b : Bar) (s : Nat) (w : Pixmap) :
    (b.reframe s w).prevdata = b.prevdata := rfl
@[simp] theorem Bar.reframe_slots (b : Bar) (s : Nat) (w : Pixmap) : (b.reframe s w).slots = s := rfl
@[simp] theorem Bar.reframe_actions (b : Bar) (s : Nat) (w : Pixmap) :
    (b.reframe s w).actions = b.actions := rfl
@[simp] theorem Bar.reframe_reframe (b : Bar) (s s' : Nat) (w w' : Pixmap) :
    (b.reframe s w).reframe s' w' = b.reframe s' w' := rfl

theorem drawCharacter_reframe (b : Bar) (s : Nat) (w : Pixmap) (ch : UInt16) :
    drawCharacter S F (b.reframe s w) ch = (drawCharacter S F b ch).reframe s w := by
  cases h : F.charWidth b.preferredFont ch with
  | none => rw [drawCharacter_of_none S F h, drawCharacter_of_none S F (show F.charWidth (b.reframe s w).preferredFont ch = none from h)]
  | some cw => simp only [drawCharacter, Bar.reframe, h]; rfl

theorem drawTextstring_reframe (b : Bar) (s : Nat) (w : Pixmap) (text : List UInt8) :
    drawTextstring S F (b.reframe s w) text = (drawTextstring S F b text).reframe s w := by
  induction text generalizing b with
  | nil => rfl
  | cons c cs ih => exact (congrArg (drawTextstring S F · cs) (drawCharacter_reframe S F b s w _)).trans (ih _)

/-- No handler reads the slot count or the window. -/
theorem handleEvent_reframe (b : Bar) (s : Nat) (w : Pixmap) (e : Event) :
    handleEvent S F (b.reframe s w) e = (handleEvent S F b e).reframe s w := by
  cases e with
  | alignmentChange align => simp only [handleEvent, onAlignmentChange, Bar.reframe]; split <;> rfl
  | attributeSet attr => simp only [handleEvent, onAttributeSet, Bar.reframe]; split <;> rfl
  | attributeUnset attr => simp only [handleEvent, onAttributeUnset, Bar.reframe]; split <;> rfl
  | asciiTextWrite ch => exact drawCharacter_reframe S F b s w ch
  | unicodeTextWrite ch => exact drawCharacter_reframe S F b s w ch
  | stringWrite text => exact drawTextstring_reframe S F b s w text
  | _ => rfl

theorem runEvents_reframe (b : Bar) (s : Nat) (w : Pixmap) (events : List Event) :
    runEvents S F (b.reframe s w) events = (runEvents S F b events).reframe s w := by
  induction events generalizing b with
  | nil => rfl
  | cons e es ih => exact (congrArg (runEvents S F · es) (handleEvent_reframe S F b s w e)).trans (ih _)

/-- The start of a pass reads the slot count only for a tray on the left. -/
theorem passStart_reframe (data : List Char) (b : Bar) (s : Nat) (w : Pixmap)
    (h : S.trayAlign = .left → s = b.slots) :
    passStart S data (b.reframe s w) = (passStart S data b).reframe s w := by
  by_cases hl : S.trayAlign = .left
  · obtain rfl := h hl
    simp only [passStart, drawBackground, Bar.reframe]
    split <;> rfl
  · simp only [passStart, drawBackground, Bar.reframe, hl, false_and, if_false]

/-- The close of a pass never reads the window, and reads the slot count only for a
tray on the right. -/
theorem passEnd_reframe (b : Bar) (s : Nat) (w w' : Pixmap) :
    passEnd S (b.reframe s w) = passEnd S (b.reframe s w') := by
  simp only [passEnd, Bar.reframe]
  split <;> rfl

theorem passEnd_reframe_of_ne (b : Bar) (s : Nat) (w : Pixmap) (h : S.trayAlign ≠ .right) :
    passEnd S (b.reframe s w) = { passEnd S b with slots := s } := by
  simp only [passEnd, Bar.reframe, h, false_and, if_false]
  rfl

@[simp] theorem passEnd_slots (b : Bar) : (passEnd S b).slots = b.slots := by
  simp only [passEnd, flush, drawBorder]
  split <;> rfl

@[simp] theorem passEnd_prevdata (b : Bar) : (passEnd S b).prevdata = b.prevdata := by
  simp only [passEnd, flush, drawBorder]
  split <;> rfl

/-- A pass ends with the flush: the window shows the pixmap. -/
theorem passEnd_window (b : Bar) : (passEnd S b).window = (passEnd S b).pixmap := rfl

@[simp] theorem handleEvent_prevdata (b : Bar) (e : Event) : (handleEvent S F b e).prevdata = b.prevdata :=
  runEvents_prevdata S F b [e]

@[simp] theorem handleEvent_slots (b : Bar) (e : Event) : (handleEvent S F b e).slots = b.slots :=
  runEvents_slots S F b [e]

theorem Bar.with_slots_eq {b : Bar} {s : Nat} (h : b.slots = s) : { b with slots := s } = b := by
  subst h; rfl

/-- A flush changes nothing when the window already shows the pixmap. -/
theorem flush_of_window {b : Bar} (h : b.window = b.pixmap) : flush b = b := by
  obtain ⟨⟩ := b; simp only at h; simp [flush, h]

/-- A press reads nothing of the bar but its region table. -/
theorem handleButtonPress_congr {b b' : Bar} (h : b.actions = b'.actions) (passes : Bool)
    (button : Mousebtn) (x : Int) : handleButtonPress b passes button x = handleButtonPress b' passes button x := by
  simp only [handleButtonPress, h]

end Frame

/-! ### The invariant -/

section Invariant

variable (S : Settings) (F : Fonts) (markup : List Char → List Event) (dataSize : Nat)

/-- A pass in progress with `events` left to draw: the bar is the pass of some content
begun from `b₀`, as far as it has drawn, except for the slot count and the window. -/
def Drawing (b b₀ : Bar) (events : List Event) : Prop :=
  ∃ d pre s w, pre ++ events = markup d ∧ b = (runEvents S F (passStart S d b₀) pre).reframe s w

theorem Drawing.start (d : List Char) (b : Bar) : Drawing S F markup (passStart S d b) b (markup d) :=
  ⟨d, [], (passStart S d b).slots, (passStart S d b).window, rfl, rfl⟩

theorem Drawing.event {b b₀ : Bar} {e : Event} {es : List Event} (h : Drawing S F markup b b₀ (e :: es)) :
    Drawing S F markup (handleEvent S F b e) b₀ es := by
  obtain ⟨d, pre, s, w, hpre, rfl⟩ := h
  refine ⟨d, pre ++ [e], s, w, by simpa using hpre, ?_⟩
  rw [handleEvent_reframe]
  simp only [runEvents, List.foldl_append, List.foldl_cons, List.foldl_nil]

theorem Drawing.reframe {b b₀ : Bar} {es : List Event} (h : Drawing S F markup b b₀ es) (s : Nat)
    (w : Pixmap) : Drawing S F markup (b.reframe s w) b₀ es := by
  obtain ⟨d, pre, s', w', hpre, rfl⟩ := h
  exact ⟨d, pre, s, w, hpre, rfl⟩

/-- **The close of a pass.** A pass whose events are all drawn closes to a render pass
of the last content, from a start whose slot count is the bar's when the pass began
with it: on the right, where the close reads the count, always. -/
theorem Drawing.passEnd {b b₀ : Bar} (h : Drawing S F markup b b₀ []) :
    ∃ b₁ : Bar, (b₀.slots = b.slots → b₁.slots = b.slots) ∧
      passEnd S b = { renderPass S F b.prevdata (markup b.prevdata) b₁ with slots := b.slots } := by
  obtain ⟨d, pre, s, w, hpre, rfl⟩ := h
  rw [List.append_nil] at hpre
  subst hpre
  simp only [Bar.reframe_prevdata, Bar.reframe_slots, runEvents_prevdata, passStart_prevdata]
  by_cases hr : S.trayAlign = .right
  · refine ⟨b₀.reframe s b₀.window, fun _ => rfl, ?_⟩
    rw [renderPass, passStart_reframe S d b₀ s b₀.window (fun hl => by simp [hl] at hr), runEvents_reframe,
      passEnd_reframe S _ s w b₀.window, Bar.with_slots_eq (by simp)]
  · exact ⟨b₀, id, passEnd_reframe_of_ne S _ s w hr⟩

/-- Between passes: the window shows the pixmap, and the region table is the table of
a finished pass over the last content, or still empty. -/
structure Settled (b : Bar) : Prop where
  window : b.window = b.pixmap
  table : b.actions = [] ∨ ∃ b₀ : Bar, b.actions = (renderPass S F b.prevdata (markup b.prevdata) b₀).actions

theorem Settled.passEnd {b b₀ : Bar} (h : Drawing S F markup b b₀ []) : Settled S F markup (passEnd S b) := by
  obtain ⟨b₁, -, he⟩ := h.passEnd
  exact ⟨passEnd_window S b, .inr ⟨b₁, by rw [passEnd_prevdata, he]⟩⟩

theorem drawnWith_passEnd {b b₀ : Bar} (h : Drawing S F markup b b₀ []) (hs : b.prevdata ≠ [] → b₀.slots = b.slots) :
    DrawnWith S F markup (passEnd S b) (passEnd S b).slots := by
  intro hd
  rw [passEnd_prevdata] at hd
  obtain ⟨b₁, hb₁, he⟩ := h.passEnd
  have h₁ := hb₁ (hs hd)
  refine ⟨b₁, by rw [passEnd_slots, h₁], ?_⟩
  show passEnd S b = _
  rw [passEnd_prevdata, he, Bar.with_slots_eq (by rw [renderPass_slots, h₁])]

/-- A pass in progress with `events` left: the bar is that pass, begun from `b₀`, whose
slot count is the bar's unless the tray thread has a redraw to come. -/
def Process.Pass (t : Process) (events : List Event) : Prop :=
  ∃ b₀, Drawing S F markup t.bar b₀ events ∧ (t.tray.quiet = true → t.bar.prevdata ≠ [] → b₀.slots = t.bar.slots)

/-- The invariant of the lock: it is held exactly while one pass is in progress, and
by one thread at a time; a pass in progress is a pass; between passes the bar is
settled, and drawn with the current slot count when the tray thread is between
reports. -/
structure Process.Inv (t : Process) : Prop where
  lock : t.lock = (t.main.isSome || t.tray.busy)
  exclusive : t.main = none ∨ t.tray.busy = false
  main : ∀ es, t.main = some es → t.Pass S F markup es
  tray : ∀ es, t.tray = .drawing es → t.Pass S F markup es
  settled : t.lock = false → Settled S F markup t.bar
  drawn : t.lock = false → t.tray = .idle → DrawnWith S F markup t.bar t.bar.slots

/-- The entry `e` is what the X event thread's next step puts on the queue for the
press it reads: with the lock free, from the bar's table, which is that of a
finished pass over the bar's last content, as the command that table gives for the
press's button and column. -/
def Process.Served (t : Process) (e : Controller.Entry) : Prop :=
  t.lock = false ∧ ∃ button x xs cmd, t.xevents = .buttonPress true button x :: xs ∧
    handleButtonPress t.bar true button x = some cmd ∧ cmd.length ≤ dataSize ∧
    e = ⟨.input, Controller.fillBuffer dataSize cmd⟩ ∧
    ∃ b₀ : Bar, t.bar.actions = (renderPass S F t.bar.prevdata (markup t.bar.prevdata) b₀).actions

variable {S F markup dataSize} {t : Process}

theorem ReportPc.ne_drawing {p : ReportPc} (h : p.busy = false) (es : List Event) : p ≠ .drawing es := by
  rintro rfl; cases h

/-- With the lock free, no pass is in progress. -/
theorem Process.Inv.free (h : t.Inv S F markup) (hl : t.lock = false) :
    t.main = none ∧ t.tray.busy = false := by
  have h' := Bool.or_eq_false_iff.mp (hl.symm.trans h.lock).symm
  exact ⟨Option.not_isSome_iff_eq_none.mp (by simp [h'.1]), h'.2⟩

/-- **The main thread's step.** -/
theorem Process.Inv.step_main (h : t.Inv S F markup) :
    (t.step S F markup dataSize .main).Inv S F markup := by
  obtain ⟨b, lock, updates, main, reports, tray, xevents, queue⟩ := t
  cases main with
  | none =>
    cases updates with
    | nil => exact h
    | cons d ds =>
      cases lock
      case true => exact h
      obtain ⟨-, hbusy⟩ := h.free rfl
      by_cases hd : d = b.prevdata
      · simpa [Process.step, hd] using ⟨h.lock, h.exclusive, h.main, h.tray, h.settled, h.drawn⟩
      · simp only [Process.step, hd, if_false, Bool.false_eq_true]
        exact {
          lock := rfl
          exclusive := .inr hbusy
          main := by rintro _ ⟨⟩; exact ⟨b, Drawing.start S F markup d b, fun _ _ => by simp⟩
          tray := fun es hes => absurd hes (ReportPc.ne_drawing hbusy es)
          settled := nofun
          drawn := nofun }
  | some es =>
    have hbusy : tray.busy = false := h.exclusive.resolve_left nofun
    obtain ⟨b₀, hdraw, hslots⟩ := h.main es rfl
    replace hdraw : Drawing S F markup b b₀ es := hdraw
    replace hslots : tray.quiet = true → b.prevdata ≠ [] → b₀.slots = b.slots := hslots
    cases es with
    | nil =>
      simp only [Process.step]
      exact {
        lock := by simp [hbusy]
        exclusive := .inl rfl
        main := nofun
        tray := fun es hes => absurd hes (ReportPc.ne_drawing hbusy es)
        settled := fun _ => Settled.passEnd S F markup hdraw
        drawn := fun _ (hi : tray = .idle) => drawnWith_passEnd S F markup hdraw (hslots (by rw [hi]; rfl)) }
    | cons e es =>
      have hlock : lock = true := by simpa using h.lock
      simp only [Process.step]
      exact {
        lock := by simp [hlock]
        exclusive := .inr hbusy
        main := by rintro _ ⟨⟩; exact ⟨b₀, hdraw.event, by simpa using hslots⟩
        tray := fun es hes => absurd hes (ReportPc.ne_drawing hbusy es)
        settled := fun hl => by simp [hlock] at hl
        drawn := fun hl => by simp [hlock] at hl }

/-- A step of the tray thread that only moves it to another place outside the lock
keeps the invariant, when the new place has a redraw to come or nothing was drawn. -/
theorem Process.Inv.setTray (h : t.Inv S F markup) (hbusy : t.tray.busy = false)
    {p : ReportPc} (hp : p.busy = false) (hq : p.quiet = true → t.bar.prevdata = []) :
    ({ t with tray := p } : Process).Inv S F markup where
  lock := by rw [h.lock, hbusy, hp]
  exclusive := .inr hp
  main := fun es hes =>
    let ⟨b₀, hdraw, _⟩ := h.main es hes
    ⟨b₀, hdraw, fun hpq hne => absurd (hq hpq) hne⟩
  tray := fun es hes => absurd hes (ReportPc.ne_drawing hp es)
  settled := h.settled
  drawn := fun _ (hi : p = .idle) hne => absurd (hq (by rw [hi]; rfl)) hne

/-- **The tray thread's step.** -/
theorem Process.Inv.step_tray (h : t.Inv S F markup) :
    (t.step S F markup dataSize .tray).Inv S F markup := by
  obtain ⟨b, lock, updates, main, reports, tray, xevents, queue⟩ := t
  cases tray with
  | idle =>
    cases reports with
    | nil => exact h
    | cons n ns =>
      by_cases hn : b.slots = n
      · simpa [Process.step, hn] using ⟨h.lock, h.exclusive, h.main, h.tray, h.settled, h.drawn⟩
      · simp only [Process.step, hn, if_false]
        exact {
          lock := h.lock
          exclusive := .inr rfl
          main := fun es hes =>
            let ⟨b₀, hdraw, _⟩ := h.main es hes
            ⟨b₀, Drawing.reframe S F markup hdraw n b.window, nofun⟩
          tray := fun _ => nofun
          settled := fun hl => let ⟨hw, ht⟩ := h.settled hl; ⟨hw, ht⟩
          drawn := fun _ => nofun }
  | wrote =>
    simp only [Process.step]
    by_cases hd : b.prevdata ≠ []
    · rw [if_pos hd]; exact h.setTray rfl rfl nofun
    · rw [if_neg hd]; exact h.setTray rfl rfl fun _ => not_not.mp hd
  | checked => exact h.setTray rfl rfl nofun
  | copied d =>
    cases lock
    case true => exact h
    obtain ⟨hmain, -⟩ := h.free rfl
    replace hmain : main = none := hmain
    subst hmain
    simp only [Process.step, Bool.false_eq_true, if_false]
    exact {
      lock := rfl
      exclusive := .inl rfl
      main := nofun
      tray := by rintro _ ⟨⟩; exact ⟨b, Drawing.start S F markup d b, fun _ _ => by simp⟩
      settled := nofun
      drawn := nofun }
  | drawing es =>
    have hmain : main = none := h.exclusive.resolve_right nofun
    subst hmain
    obtain ⟨b₀, hdraw, hslots⟩ := h.tray es rfl
    replace hdraw : Drawing S F markup b b₀ es := hdraw
    replace hslots : b.prevdata ≠ [] → b₀.slots = b.slots := hslots rfl
    cases es with
    | nil =>
      simp only [Process.step]
      exact {
        lock := rfl
        exclusive := .inl rfl
        main := nofun
        tray := fun _ => nofun
        settled := fun _ => Settled.passEnd S F markup hdraw
        drawn := fun _ _ => drawnWith_passEnd S F markup hdraw hslots }
    | cons e es =>
      have hlock : lock = true := by simpa [ReportPc.busy] using h.lock
      simp only [Process.step]
      exact {
        lock := by simp [hlock, ReportPc.busy]
        exclusive := .inl rfl
        main := nofun
        tray := by rintro _ ⟨⟩; exact ⟨b₀, hdraw.event, fun _ => by simpa using hslots⟩
        settled := fun hl => by simp [hlock] at hl
        drawn := fun hl => by simp [hlock] at hl }

/-- **The X event thread's step.** -/
theorem Process.Inv.step_xevent (h : t.Inv S F markup) :
    (t.step S F markup dataSize .xevent).Inv S F markup := by
  obtain ⟨b, lock, updates, main, reports, tray, xevents, queue⟩ := t
  cases xevents with
  | nil => exact h
  | cons ev xs =>
    cases ev with
    | buttonPress passes button x =>
      simp only [Process.step]
      split
      · exact h
      · exact ⟨h.lock, h.exclusive, h.main, h.tray, h.settled, h.drawn⟩
    | expose ours =>
      cases ours
      · exact ⟨h.lock, h.exclusive, h.main, h.tray, h.settled, h.drawn⟩
      · simp only [Process.step, if_true]
        exact {
          lock := h.lock
          exclusive := h.exclusive
          main := fun es hes => let ⟨b₀, hdraw, hs⟩ := h.main es hes; ⟨b₀, Drawing.reframe S F markup hdraw b.slots b.pixmap, hs⟩
          tray := fun es hes => let ⟨b₀, hdraw, hs⟩ := h.tray es hes; ⟨b₀, Drawing.reframe S F markup hdraw b.slots b.pixmap, hs⟩
          settled := fun hl => by rw [flush_of_window (h.settled hl).window]; exact h.settled hl
          drawn := fun hl => by rw [flush_of_window (h.settled hl).window]; exact h.drawn hl }

/-- **The step.** Every step of every thread keeps the invariant. -/
theorem Process.Inv.step (h : t.Inv S F markup) (w : Worker) :
    (t.step S F markup dataSize w).Inv S F markup := by
  cases w
  exacts [h.step_main, h.step_tray, h.step_xevent]

/-- **The run.** -/
theorem Process.Inv.run (h : t.Inv S F markup) (schedule : List Worker) :
    (t.run S F markup dataSize schedule).Inv S F markup := by
  induction schedule generalizing t with
  | nil => exact h
  | cons w ws ih => exact ih (h.step w)

/-- Only the X event thread's step puts entries on the queue. -/
theorem Process.step_queue_of_ne (t : Process) {w : Worker} (hw : w ≠ .xevent) :
    (t.step S F markup dataSize w).queue = t.queue := by
  obtain ⟨b, lock, updates, main, reports, tray, xevents, queue⟩ := t
  cases w with
  | xevent => exact absurd rfl hw
  | main => simp only [Process.step]; split <;> (try split) <;> (try split) <;> rfl
  | tray => simp only [Process.step]; split <;> (try split) <;> rfl

/-- **What one step queues.** An entry on the queue after a step was there before, or
the step is the X event thread's and the entry is what it served for its press. -/
theorem Process.Inv.mem_queue_step (h : t.Inv S F markup) (w : Worker) {e : Controller.Entry}
    (he : e ∈ (t.step S F markup dataSize w).queue) :
    e ∈ t.queue ∨ (w = .xevent ∧ t.Served S F markup dataSize e) := by
  by_cases hw : w = .xevent
  swap
  · exact .inl (by rwa [Process.step_queue_of_ne t hw] at he)
  subst hw
  obtain ⟨b, lock, updates, main, reports, tray, xevents, queue⟩ := t
  cases xevents with
  | nil => exact .inl he
  | cons ev xs =>
    cases ev with
    | expose ours => exact .inl he
    | buttonPress passes button x =>
      simp only [Process.step] at he
      by_cases hblock : (passes && lock) = true
      · rw [if_pos hblock] at he; exact .inl he
      rw [if_neg hblock] at he
      cases passes with
      | false => exact .inl (by simpa [handleButtonPress] using he)
      | true =>
        have hl : lock = false := by simpa using hblock
        cases hcmd : handleButtonPress b true button x with
        | none => rw [hcmd] at he; exact .inl he
        | some cmd =>
          rw [hcmd] at he
          simp only [Option.elim, Controller.onMouseEvent] at he
          split at he
          · exact .inl he
          rcases List.mem_append.mp he with he | he
          · exact .inl he
          obtain ⟨-, hnil | ht⟩ := h.settled hl
          · replace hnil : b.actions = [] := hnil
            simp [handleButtonPress, hnil] at hcmd
          exact .inr ⟨rfl, hl, button, x, xs, cmd, rfl, hcmd, by omega, List.mem_singleton.mp he, ht⟩

/-- **What a run queues.** An entry on the queue after a run was there before, or some
prefix of the schedule reaches a state whose X event step, taken next, served it. -/
theorem Process.Inv.mem_queue_run (h : t.Inv S F markup) (schedule : List Worker) {e : Controller.Entry}
    (he : e ∈ (t.run S F markup dataSize schedule).queue) :
    e ∈ t.queue ∨ ∃ pre post, schedule = pre ++ .xevent :: post ∧
      (t.run S F markup dataSize pre).Served S F markup dataSize e := by
  induction schedule generalizing t with
  | nil => exact .inl he
  | cons w ws ih =>
    rcases ih (h.step w) he with he | ⟨pre, post, rfl, hs⟩
    · rcases h.mem_queue_step w he with he | ⟨rfl, hs⟩
      · exact .inl he
      · exact .inr ⟨[], ws, rfl, hs⟩
    · exact .inr ⟨w :: pre, post, rfl, hs⟩

variable (S F markup dataSize)

/-- The process starts with the invariant. -/
theorem Process.inv_start (colors : BarColors) (defaultFont : Int) (pixmap : Pixmap)
    (updates : List (List Char)) (reports : List Nat) (xevents : List XEvent) :
    (Process.start colors defaultFont pixmap updates reports xevents).Inv S F markup where
  lock := rfl
  exclusive := .inl rfl
  main := nofun
  tray := fun _ => nofun
  settled := fun _ => ⟨rfl, .inl rfl⟩
  drawn := fun _ _ hd => absurd rfl hd

end Invariant

/-! ### Over every interleaving -/

section Runs

variable (S : Settings) (F : Fonts) (markup : List Char → List Event) (dataSize : Nat)
variable (colors : BarColors) (defaultFont : Int) (pixmap : Pixmap) (updates : List (List Char))
  (reports : List Nat) (xevents : List XEvent) (schedule : List Worker)

/-- **One pass at a time.** In every interleaving of the three threads from the process
`controller::run` starts, the main thread and the tray thread are never both in a
pass, and the lock is held exactly while one of them is. -/
theorem passes_exclusive :
    let t : Process :=
      (Process.start colors defaultFont pixmap updates reports xevents).run S F markup dataSize schedule
    (t.main = none ∨ t.tray.busy = false) ∧ t.lock = (t.main.isSome || t.tray.busy) :=
  let h := (Process.inv_start S F markup colors defaultFont pixmap updates reports xevents).run schedule
  ⟨h.exclusive, h.lock⟩

/-- **Clicks read finished tables.** In every interleaving, every input entry on the
event loop's queue was put there by the X event thread's step for one press, taken
at a state a prefix of the interleaving reached: the lock was free, the press was let
through, and the bar's table was that of a finished render pass over the bar's last
content. The entry holds, as `controller::on_mouse_event` wrote it, the command that
table gives for that press's button and column, and the command fits the entry's
buffer. -/
theorem clicks_use_finished_table :
    let t : Process :=
      (Process.start colors defaultFont pixmap updates reports xevents).run S F markup dataSize schedule
    ∀ e ∈ t.queue, ∃ pre post, schedule = pre ++ .xevent :: post ∧
      let u : Process :=
        (Process.start colors defaultFont pixmap updates reports xevents).run S F markup dataSize pre
      u.lock = false ∧ ∃ button x xs cmd, u.xevents = .buttonPress true button x :: xs ∧
        handleButtonPress u.bar true button x = some cmd ∧ cmd.length ≤ dataSize ∧
        e = ⟨.input, Controller.fillBuffer dataSize cmd⟩ ∧
        ∃ b₀ : Bar, u.bar.actions = (renderPass S F u.bar.prevdata (markup u.bar.prevdata) b₀).actions :=
  fun e he => ((Process.inv_start S F markup colors defaultFont pixmap updates reports xevents).mem_queue_run
    schedule he).resolve_left (List.not_mem_nil e)

/-- **Between passes the bar is settled.** In every interleaving, whenever the lock is
free the window shows the pixmap; when the tray thread is also between reports and
some content was drawn, the bar is one render pass of its last content with the
current slot count. -/
theorem settled_between_passes :
    let t : Process :=
      (Process.start colors defaultFont pixmap updates reports xevents).run S F markup dataSize schedule
    t.lock = false → t.bar.window = t.bar.pixmap ∧
      (t.tray = .idle → t.bar.prevdata ≠ [] →
        ∃ b₀ : Bar, b₀.slots = t.bar.slots ∧ t.bar = renderPass S F t.bar.prevdata (markup t.bar.prevdata) b₀) :=
  let h := (Process.inv_start S F markup colors defaultFont pixmap updates reports xevents).run schedule
  fun hl => ⟨(h.settled hl).window, h.drawn hl⟩

/-- **An expose shows a half-drawn frame.** `bar::handle(expose)` flushes without the
lock: for every bar, every new content and every point of its pass, an expose the X
event thread handles there puts on the window the pixmap as far as the pass has drawn
it, while the pass still holds the lock. -/
theorem expose_shows_partial_pass (b : Bar) {d : List Char} (hd : d ≠ b.prevdata) {pre rest : List Event}
    (hsplit : markup d = pre ++ rest) (tray : ReportPc) (queue : List Controller.Entry) :
    let t : Process := Process.run S F markup dataSize ⟨b, false, [d], none, reports, tray, [.expose true], queue⟩
      (List.replicate (pre.length + 1) .main ++ [.xevent])
    t.bar.window = (runEvents S F (passStart S d b) pre).pixmap ∧ t.lock = true ∧ t.main = some rest := by
  have hstart : Process.step S F markup dataSize ⟨b, false, [d], none, reports, tray, [.expose true], queue⟩ .main =
      ⟨passStart S d b, true, [], some (pre ++ rest), reports, tray, [.expose true], queue⟩ := by
    simp [Process.step, hd, hsplit]
  simp only
  rw [List.replicate_succ, List.cons_append, Process.run_cons, hstart, Process.run_append,
    Process.run_main_events S F markup dataSize _ pre rest rfl]
  exact ⟨rfl, rfl, rfl⟩

end Runs

/-! ### A click on a finished pass -/

/-- The events of `%{A1:o:}a%{A}`: a region for the left button around one glyph. -/
def clickEvents : List Event :=
  [.actionBlockOpen ⟨1⟩ ['o'], .asciiTextWrite 97, .actionBlockClose ⟨1⟩]

/-- The process with one content to draw and one left click at column 5 after it. -/
def clickProcess : Process :=
  Process.start ⟨.empty, .empty, .empty, .empty, .empty, .empty, .empty⟩ 0 (fun _ => Cell.ofFill 0)
    [['x']] [] [.buttonPress true ⟨1⟩ 5]

/-- The pass drawn, then the click. -/
def clickSchedule : List Worker := [.main, .main, .main, .main, .main, .xevent]

theorem clicks_use_finished_table_demo :
    (clickProcess.run demoSettings demoFonts (fun _ => clickEvents) 8 clickSchedule).queue =
        [⟨.input, Controller.fillBuffer 8 ['o']⟩] ∧
      ∃ pre post, clickSchedule = pre ++ .xevent :: post ∧
        (clickProcess.run demoSettings demoFonts (fun _ => clickEvents) 8 pre).lock = false := by
  obtain ⟨pre, post, hs, hl, -⟩ := clicks_use_finished_table demoSettings demoFonts (fun _ => clickEvents) 8
    ⟨.empty, .empty, .empty, .empty, .empty, .empty, .empty⟩ 0 (fun _ => Cell.ofFill 0) [['x']] []
    [.buttonPress true ⟨1⟩ 5] clickSchedule ⟨.input, Controller.fillBuffer 8 ['o']⟩ (by decide)
  exact ⟨by decide, pre, post, hs, hl⟩

theorem settled_between_passes_demo :
    let t : Process := clickProcess.run demoSettings demoFonts (fun _ => clickEvents) 8 clickSchedule
    t.lock = false ∧ t.tray = .idle ∧ t.bar.prevdata ≠ [] ∧
      ∃ b₀ : Bar, b₀.slots = t.bar.slots ∧ t.bar = renderPass demoSettings demoFonts t.bar.prevdata clickEvents b₀ := by
  intro t
  have hl : t.lock = false := rfl
  have hd : t.bar.prevdata ≠ [] := by decide
  exact ⟨hl, rfl, hd, (settled_between_passes demoSettings demoFonts (fun _ => clickEvents) 8 _ _ _ _ _ _
    clickSchedule hl).2 rfl hd⟩

theorem expose_shows_partial_pass_demo :
    ['x'] ≠ demoBar.prevdata ∧ clickEvents = [.actionBlockOpen ⟨1⟩ ['o']] ++ [.asciiTextWrite 97, .actionBlockClose ⟨1⟩] ∧
      (Process.run demoSettings demoFonts (fun _ => clickEvents) 8
        ⟨demoBar, false, [['x']], none, [], .idle, [.expose true], []⟩ [.main, .main, .xevent]).lock = true :=
  ⟨by decide, rfl, (expose_shows_partial_pass demoSettings demoFonts (fun _ => clickEvents) 8 [] demoBar
    (show ['x'] ≠ demoBar.prevdata by decide)
    (show clickEvents = [.actionBlockOpen ⟨1⟩ ['o']] ++ [.asciiTextWrite 97, .actionBlockClose ⟨1⟩] from rfl)
    .idle []).2.1⟩

end Lemonbuddy
