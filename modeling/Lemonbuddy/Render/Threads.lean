import Lemonbuddy.Render.Actions

/-!
# The bar between two threads

Two threads write the bar. The event loop, on the main thread, hands every new
content to `bar::parse(contents)` from `controller::on_update`. The tray manager
reports its slot count through `bar::on_tray_report(slots)`, from the thread
`controller::run` starts for it. `bar::parse` holds `m_lock` for its whole body;
`bar::on_tray_report` does not take it. It compares and writes `m_tray.slots`, tests
`m_prevdata` for emptiness, copies it into the by-value argument of
`parse(m_prevdata, true)`, and only then waits for the lock.

`Threads` is the shared bar with what each thread has left to do, and
`Threads.step` one atomic step of a thread: a whole `parse` for the main thread, and
for the tray thread one of the four steps of `on_tray_report` (`TrayPc` says which
comes next). Every interleaving is a schedule, a list of threads, and
`Threads.run` plays it. Run without interruption, the tray thread's steps compute
`onTrayReport` (`run_tray_eq_onTrayReport`), and the main thread's step is `parse`.

What holds over every interleaving:

* whenever the tray thread is between reports, the bar is one render pass of its
  last content drawn with the current slot count (`tray_layout_consistent`): a
  pass drawn with a stale count is always followed by the tray's forced redraw;
* the last slot count reported is the one the bar keeps
  (`last_report_kept`).

What does not: the content. Once the main thread has handed over its last content,
no step changes the content the bar will show when the tray thread is done: the
copy the tray thread holds, or else the bar's content (`pendingContent_run`). Of all
the interleavings of one update with one report, the update is therefore lost in
exactly those where it runs after the tray thread copied `m_prevdata` and before its
forced redraw: the older copy is drawn over it (`tray_redraw_loses_update`).

A pass reads `m_tray.slots` only for the tray's own side, at its start for a tray on
the left and at its end for one on the right, and writes `m_prevdata` before
drawing; a write or a read of the other thread during a pass therefore acts as one
before or after it, and a pass is one step.
-/

namespace Lemonbuddy

/-- The step of `bar::on_tray_report(slots)` the tray thread takes next. -/
inductive TrayPc
  /-- between reports -/
  | idle
  /-- `m_tray.slots` written -/
  | wrote
  /-- `m_prevdata` found non-empty -/
  | checked
  /-- `m_prevdata` copied into the argument of `parse(m_prevdata, true)` -/
  | copied (data : List Char)
  deriving DecidableEq, Repr

/-- The shared bar, the contents the main thread has still to hand to `bar::parse`,
the slot counts the tray has still to report, and where the tray thread stands. -/
structure Threads where
  bar : Bar
  updates : List (List Char)
  reports : List Nat
  pc : TrayPc

/-- The two threads that write the bar. -/
inductive Thread
  | main
  | tray
  deriving DecidableEq, Repr

section Steps

variable (S : Settings) (F : Fonts) (markup : List Char → List Event)

/-- One atomic step of a thread. The main thread draws its next content with
`bar::parse(contents)`, whose `force` defaults to `false`. The tray thread compares
and writes the slot count, tests `m_prevdata`, copies it, and redraws the copy under
the lock. A thread with nothing left to do does nothing. -/
def Threads.step (t : Threads) : Thread → Threads
  | .main =>
    match t.updates with
    | [] => t
    | d :: ds => { t with bar := parse S F markup d false t.bar, updates := ds }
  | .tray =>
    match t.pc, t.reports with
    | .idle, [] => t
    | .idle, n :: ns =>
      if t.bar.slots = n then { t with reports := ns }
      else { t with bar := { t.bar with slots := n }, reports := ns, pc := .wrote }
    | .wrote, _ => if t.bar.prevdata ≠ [] then { t with pc := .checked } else { t with pc := .idle }
    | .checked, _ => { t with pc := .copied t.bar.prevdata }
    | .copied d, _ => { t with bar := parse S F markup d true t.bar, pc := .idle }

/-- An interleaving of the two threads, played step by step. -/
def Threads.run (t : Threads) (schedule : List Thread) : Threads :=
  schedule.foldl (Threads.step S F markup) t

/-- Run without interruption, the tray thread's four steps are `bar::on_tray_report`. -/
theorem run_tray_eq_onTrayReport (b : Bar) (updates : List (List Char)) (n : Nat) :
    Threads.run S F markup ⟨b, updates, [n], .idle⟩ [.tray, .tray, .tray, .tray] =
      ⟨onTrayReport S F markup n b, updates, [], .idle⟩ := by
  by_cases hn : b.slots = n
  · simp [Threads.run, Threads.step, onTrayReport, hn]
  · by_cases hd : b.prevdata = []
    · simp [Threads.run, Threads.step, onTrayReport, hn, hd]
    · simp [Threads.run, Threads.step, onTrayReport, hn, hd]

theorem run_main_eq_parse (b : Bar) (d : List Char) (updates : List (List Char)) (reports : List Nat)
    (pc : TrayPc) :
    Threads.run S F markup ⟨b, d :: updates, reports, pc⟩ [.main] =
      ⟨parse S F markup d false b, updates, reports, pc⟩ := rfl

theorem run_append (t : Threads) (s₁ s₂ : List Thread) :
    Threads.run S F markup t (s₁ ++ s₂) = Threads.run S F markup (Threads.run S F markup t s₁) s₂ :=
  List.foldl_append _ _ _ _

@[simp] theorem renderPass_slots (data : List Char) (events : List Event) (b : Bar) :
    (renderPass S F data events b).slots = b.slots := by
  simp only [renderPass, passEnd, flush, drawBorder]
  split <;> simp

/-- A forced `bar::parse` always draws. -/
theorem parse_force (d : List Char) (b : Bar) :
    parse S F markup d true b = renderPass S F d (markup d) b := by
  simp [parse]

@[simp] theorem parse_slots (d : List Char) (force : Bool) (b : Bar) :
    (parse S F markup d force b).slots = b.slots := by
  unfold parse; split <;> simp

/-- `bar::parse` leaves its argument as the last content, drawn or not. -/
@[simp] theorem parse_prevdata (d : List Char) (force : Bool) (b : Bar) :
    (parse S F markup d force b).prevdata = d := by
  unfold parse
  split_ifs with h
  · exact h.1.symm
  · exact renderPass_prevdata S F d _ b

end Steps

/-! ### The slot layout -/

section Layout

variable (S : Settings) (F : Fonts) (markup : List Char → List Event)

/-- The bar shows a render pass of its last content drawn with `slots` tray slots;
nothing is said of a bar before a content is drawn. -/
def DrawnWith (b : Bar) (slots : Nat) : Prop :=
  b.prevdata ≠ [] → ∃ b₀ : Bar, b₀.slots = slots ∧
    { b with slots := slots } = renderPass S F b.prevdata (markup b.prevdata) b₀

/-- A pass is drawn with the slot count it leaves. -/
theorem drawnWith_renderPass (d : List Char) (b : Bar) :
    DrawnWith S F markup (renderPass S F d (markup d) b) b.slots := by
  intro _
  refine ⟨b, rfl, ?_⟩
  rw [← renderPass_slots S F d (markup d) b]
  conv_rhs => rw [renderPass_prevdata]

/-- What `bar::parse` leaves is drawn with the current count, when what it was given
was. -/
theorem drawnWith_parse {b : Bar} (h : DrawnWith S F markup b b.slots) (d : List Char) (force : Bool) :
    DrawnWith S F markup (parse S F markup d force b) (parse S F markup d force b).slots := by
  rw [parse_slots]
  unfold parse
  split
  · exact h
  · exact drawnWith_renderPass S F markup d b

/-- The invariant of the interleavings: between reports, the bar is drawn with the
current count. -/
def Consistent (t : Threads) : Prop :=
  t.pc = .idle → DrawnWith S F markup t.bar t.bar.slots

/-- **The step.** Every step of either thread keeps the invariant. -/
theorem Consistent.step {t : Threads} (h : Consistent S F markup t) (th : Thread) :
    Consistent S F markup (Threads.step S F markup t th) := by
  obtain ⟨b, updates, reports, pc⟩ := t
  cases th with
  | main =>
    cases updates with
    | nil => exact h
    | cons d ds =>
      intro hpc
      exact drawnWith_parse S F markup (h hpc) d false
  | tray =>
    cases pc with
    | idle =>
      cases reports with
      | nil => exact h
      | cons n ns =>
        simp only [Threads.step]
        split
        · exact h
        · intro hpc; cases hpc
    | wrote =>
      simp only [Threads.step]
      split
      · intro hpc; cases hpc
      · intro _ hd; contradiction
    | checked => intro hpc; cases hpc
    | copied d =>
      intro _
      show DrawnWith S F markup (parse S F markup d true b) (parse S F markup d true b).slots
      rw [parse_force, renderPass_slots]
      exact drawnWith_renderPass S F markup d b

/-- **The run.** -/
theorem Consistent.run {t : Threads} (h : Consistent S F markup t) (schedule : List Thread) :
    Consistent S F markup (Threads.run S F markup t schedule) := by
  induction schedule generalizing t with
  | nil => exact h
  | cons th ths ih => exact ih (h.step S F markup th)

/-- **A stale layout is always redrawn.** In every interleaving of the main thread's
updates with the tray thread's reports from a freshly bootstrapped bar, whenever the
tray thread is between reports and some content was drawn, the bar is one render
pass of its last content with the current slot count. -/
theorem tray_layout_consistent (colors : BarColors) (defaultFont : Int) (pixmap : Pixmap)
    (updates : List (List Char)) (reports : List Nat) (schedule : List Thread) :
    let t : Threads :=
      Threads.run S F markup ⟨Bar.bootstrap colors defaultFont pixmap, updates, reports, .idle⟩ schedule
    t.pc = .idle → t.bar.prevdata ≠ [] →
      ∃ b₀ : Bar, b₀.slots = t.bar.slots ∧ t.bar = renderPass S F t.bar.prevdata (markup t.bar.prevdata) b₀ := by
  intro t hpc hd
  have hstart : Consistent S F markup ⟨Bar.bootstrap colors defaultFont pixmap, updates, reports, .idle⟩ :=
    fun _ hd => absurd rfl hd
  exact hstart.run S F markup schedule hpc hd

theorem tray_layout_consistent_redrawn :
    let t : Threads := Threads.run demoSettings demoFonts (fun _ => [])
      ⟨demoBar, [['x']], [1], .idle⟩ [.tray, .main, .tray, .tray, .tray]
    t.pc = .idle ∧ t.bar.prevdata ≠ [] ∧
      ∃ b₀ : Bar, b₀.slots = t.bar.slots ∧
        t.bar = renderPass demoSettings demoFonts t.bar.prevdata [] b₀ := by
  intro t
  have hpc : t.pc = .idle := rfl
  have hd : t.bar.prevdata ≠ [] := by decide
  exact ⟨hpc, hd, tray_layout_consistent demoSettings demoFonts (fun _ => []) _ 0 _ [['x']] [1]
    [.tray, .main, .tray, .tray, .tray] hpc hd⟩

end Layout

/-! ### The slot count and the content -/

section Reports

variable (S : Settings) (F : Fonts) (markup : List Char → List Event)

/-- The slot count the bar will have when the tray thread has made its reports: the
last report still to make, or the current count. -/
def pendingSlots (t : Threads) : Nat :=
  t.reports.getLast?.getD t.bar.slots

theorem getLast?_cons_getD (n : Nat) (ns : List Nat) (d : Nat) :
    (n :: ns).getLast?.getD d = ns.getLast?.getD n := by
  cases ns with
  | nil => rfl
  | cons m ms =>
    rw [List.getLast?_cons_cons, List.getLast?_eq_getLast (m :: ms) (List.cons_ne_nil m ms)]
    rfl

/-- No step changes the count the bar will end with. -/
theorem pendingSlots_step (t : Threads) (th : Thread) :
    pendingSlots (Threads.step S F markup t th) = pendingSlots t := by
  obtain ⟨b, updates, reports, pc⟩ := t
  cases th with
  | main => cases updates <;> simp [Threads.step, pendingSlots]
  | tray =>
    cases pc with
    | idle =>
      cases reports with
      | nil => rfl
      | cons n ns =>
        simp only [Threads.step, pendingSlots]
        split <;> simp_all [getLast?_cons_getD]
    | wrote => simp only [Threads.step]; split <;> rfl
    | checked => rfl
    | copied d => simp [Threads.step, pendingSlots]

theorem pendingSlots_run (t : Threads) (schedule : List Thread) :
    pendingSlots (Threads.run S F markup t schedule) = pendingSlots t := by
  induction schedule generalizing t with
  | nil => rfl
  | cons th ths ih => exact (ih _).trans (pendingSlots_step S F markup t th)

/-- **No slot report is lost.** In every interleaving, once the tray thread has made
all its reports, the bar has the last count reported. -/
theorem last_report_kept (b : Bar) (updates : List (List Char)) {reports : List Nat}
    (hreports : reports ≠ []) (schedule : List Thread)
    (hdone : (Threads.run S F markup ⟨b, updates, reports, .idle⟩ schedule).reports = []) :
    (Threads.run S F markup ⟨b, updates, reports, .idle⟩ schedule).bar.slots = reports.getLast hreports := by
  have h := pendingSlots_run S F markup ⟨b, updates, reports, .idle⟩ schedule
  simp only [pendingSlots, hdone, List.getLast?_nil, Option.getD_none] at h
  rw [h, List.getLast?_eq_getLast reports hreports, Option.getD_some]

theorem last_report_kept_two :
    [3, 1] ≠ [] ∧
      (Threads.run demoSettings demoFonts (fun _ => []) ⟨demoBar, [['x']], [3, 1], .idle⟩
        [.tray, .main, .tray, .tray, .tray, .tray]).reports = [] ∧
      (Threads.run demoSettings demoFonts (fun _ => []) ⟨demoBar, [['x']], [3, 1], .idle⟩
        [.tray, .main, .tray, .tray, .tray, .tray]).bar.slots = 1 := by
  have hdone : (Threads.run demoSettings demoFonts (fun _ => []) ⟨demoBar, [['x']], [3, 1], .idle⟩
      [.tray, .main, .tray, .tray, .tray, .tray]).reports = [] := rfl
  exact ⟨by decide, hdone, last_report_kept demoSettings demoFonts (fun _ => []) demoBar [['x']]
    (by decide) _ hdone⟩

/-- The content the bar shows once the tray thread is done, when the main thread has
nothing left to draw: the copy the tray thread will redraw, or the bar's content. -/
def pendingContent (t : Threads) : List Char :=
  match t.pc with
  | .copied d => d
  | _ => t.bar.prevdata

/-- With no update left, no step changes the content the bar ends with. -/
theorem pendingContent_step {t : Threads} (hupd : t.updates = []) (th : Thread) :
    pendingContent (Threads.step S F markup t th) = pendingContent t ∧
      (Threads.step S F markup t th).updates = [] := by
  obtain ⟨b, updates, reports, pc⟩ := t
  subst hupd
  cases th with
  | main => exact ⟨rfl, rfl⟩
  | tray =>
    cases pc with
    | idle =>
      cases reports with
      | nil => exact ⟨rfl, rfl⟩
      | cons n ns => simp only [Threads.step]; split <;> exact ⟨rfl, rfl⟩
    | wrote => simp only [Threads.step]; split <;> exact ⟨rfl, rfl⟩
    | checked => exact ⟨rfl, rfl⟩
    | copied d => exact ⟨parse_prevdata S F markup d true b, rfl⟩

theorem pendingContent_run {t : Threads} (hupd : t.updates = []) (schedule : List Thread) :
    pendingContent (Threads.run S F markup t schedule) = pendingContent t := by
  induction schedule generalizing t with
  | nil => rfl
  | cons th ths ih =>
    obtain ⟨hc, hu⟩ := pendingContent_step S F markup hupd th
    exact (ih hu).trans hc

/-- A tray thread between reports with none to make does nothing. -/
theorem run_tray_idle {t : Threads} (hpc : t.pc = .idle) (hrep : t.reports = []) (k : Nat) :
    Threads.run S F markup t (List.replicate k .tray) = t := by
  obtain ⟨b, updates, reports, pc⟩ := t
  subst hpc hrep
  induction k with
  | zero => rfl
  | succ k ih => exact ih

/-- **A tray report can lose an update.** Take a bar showing some content, one update
and one report of a new slot count. Every interleaving in which the
main thread draws the update is `k` steps of the tray thread, then the update, then
anything. Once the tray thread is done, the bar shows the update, except when it came
after exactly three steps of the tray thread: after its copy of `m_prevdata` and
before its forced redraw, which then draws the older content over it. -/
theorem tray_redraw_loses_update (b : Bar) (hold : b.prevdata ≠ []) (data : List Char)
    {n : Nat} (hn : b.slots ≠ n) (k : Nat) (post : List Thread)
    (hdone : (Threads.run S F markup ⟨b, [data], [n], .idle⟩ (List.replicate k .tray ++ .main :: post)).pc = .idle) :
    (Threads.run S F markup ⟨b, [data], [n], .idle⟩ (List.replicate k .tray ++ .main :: post)).bar.prevdata =
      if k = 3 then b.prevdata else data := by
  -- the state after the update: no update left, and the content the bar will end with
  have hmid : (Threads.run S F markup ⟨b, [data], [n], .idle⟩ (List.replicate k .tray ++ [.main])).updates = [] ∧
      pendingContent (Threads.run S F markup ⟨b, [data], [n], .idle⟩ (List.replicate k .tray ++ [.main])) =
        if k = 3 then b.prevdata else data := by
    rcases k with _ | _ | _ | _ | k
    · simp [Threads.run, Threads.step, pendingContent]
    · simp [Threads.run, Threads.step, pendingContent, hn]
    · simp [Threads.run, Threads.step, pendingContent, hn, hold]
    · simp [Threads.run, Threads.step, pendingContent, hn, hold]
    · -- the tray thread is done after its four steps, and the update is drawn last
      have h4 : Threads.run S F markup ⟨b, [data], [n], .idle⟩ (List.replicate 4 .tray) =
          ⟨parse S F markup b.prevdata true { b with slots := n }, [data], [], .idle⟩ := by
        simp [Threads.run, Threads.step, hn, hold]
      rw [show k + 1 + 1 + 1 + 1 = 4 + k by omega, List.replicate_add, run_append, run_append, h4,
        run_tray_idle S F markup rfl rfl]
      simp [Threads.run, Threads.step, pendingContent, show 4 + k ≠ 3 by omega]
  have hend := pendingContent_run S F markup hmid.1 post
  rw [← run_append, List.append_assoc, List.singleton_append, hmid.2] at hend
  rw [← hend]
  simp only [pendingContent, hdone]

theorem tray_redraw_loses_update_demo :
    let b : Bar := renderPass demoSettings demoFonts ['a'] [] demoBar
    b.prevdata ≠ [] ∧ b.slots ≠ 1 ∧
      (Threads.run demoSettings demoFonts (fun _ => []) ⟨b, [['b']], [1], .idle⟩
        (List.replicate 3 .tray ++ [.main, .tray])).pc = .idle ∧
      (Threads.run demoSettings demoFonts (fun _ => []) ⟨b, [['b']], [1], .idle⟩
        (List.replicate 3 .tray ++ [.main, .tray])).bar.prevdata = ['a'] := by
  intro b
  have hold : b.prevdata ≠ [] := by decide
  have hn : b.slots ≠ 1 := by decide
  have hdone : (Threads.run demoSettings demoFonts (fun _ => []) ⟨b, [['b']], [1], .idle⟩
      (List.replicate 3 .tray ++ [.main, .tray])).pc = .idle := by decide
  exact ⟨hold, hn, hdone,
    tray_redraw_loses_update demoSettings demoFonts (fun _ => []) b hold ['b'] hn 3 [.tray] hdone⟩

end Reports

end Lemonbuddy
