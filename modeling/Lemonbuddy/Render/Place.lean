import Lemonbuddy.Render.Tray

/-!
# The bar's place on the root window

`bar::bootstrap` reads the bar's width, height and offsets from the configuration,
each as the number `std::atoi` finds at the start of its string, taken as a
percentage of the monitor when the string holds a `%` (`Length.resolve`). The bar
starts at the monitor's origin moved by the offsets; its height grows by the top and
bottom borders; a bottom bar is placed `offset-y` above the monitor's lower edge. A
width or a height that does not fit the monitor is an error, and nothing else is
checked (`barPlace`).

Two things follow.

* Whether a bar is accepted depends on its width, its height and its borders only,
  never on its offsets: an offset that puts the bar partly or wholly off its
  monitor is accepted (`barPlace_eq_ok`).
* The `_NET_WM_STRUT_PARTIAL` values `bootstrap` sets reserve the bar's height from
  the top or the bottom edge of the screen, and the bar's horizontal extent
  (`strutPartial`); they never read its vertical place. A bar moved down by a
  monitor below another or by `offset-y` keeps the same strut, so the rows the
  window manager keeps free are not the rows the bar covers
  (`strut_ignores_vertical_place`).

`math_util::percentage_to_value` is not among the sources and is the parameter
`pct`. The `math_util::cap` calls after the checks are left out: the checks have
already put the width and the height between `0` and the monitor's size.
`vertical_mid` is computed for glyph placement, which the model does not draw.
-/

namespace Lemonbuddy

/-- A monitor as `randr_util::get_monitors` reports it: its origin and size. -/
structure Monitor where
  x : Int
  y : Int
  w : Int
  h : Int
  deriving DecidableEq, Repr

/-- A length of the configuration as `bootstrap` reads its string: the number
`std::atoi` finds at its start, and whether the string holds a `%`. -/
structure Length where
  value : Int
  percent : Bool
  deriving DecidableEq, Repr

/-- The length in columns or rows: a non-zero percentage is taken of `total`. -/
def Length.resolve (pct : Int → Int → Int) (l : Length) (total : Int) : Int :=
  if l.value ≠ 0 ∧ l.percent = true then pct l.value total else l.value

/-- What the size-and-position part of `bootstrap` reads of the configuration:
`width`, `height`, `offset-x`, `offset-y` and `bottom`. -/
structure SizeConfig where
  width : Length
  height : Length
  offsetX : Length
  offsetY : Length
  bottom : Bool
  deriving DecidableEq, Repr

/-- The size-and-position part of `bar::bootstrap`: the bar's place, size and borders,
or the error it throws. -/
def barPlace (pct : Int → Int → Int) (mon : Monitor) (c : SizeConfig) (top bottom left right : Int) :
    Except String BarGeometry :=
  let width := c.width.resolve pct mon.w
  let height := c.height.resolve pct mon.h
  let offsetX := c.offsetX.resolve pct mon.w
  let offsetY := c.offsetY.resolve pct mon.h
  let height := height + top + bottom
  let y := if c.bottom then mon.y + mon.h - height - offsetY else offsetY + mon.y
  if width ≤ 0 ∨ width > mon.w then .error "Resulting bar width is out of bounds"
  else if height ≤ 0 ∨ height > mon.h then .error "Resulting bar height is out of bounds"
  else .ok ⟨offsetX + mon.x, y, width, height, top, bottom, left, right⟩

/-- An `int` stored into a `uint32_t`: modulo `2^32`. -/
def cardinal (v : Int) : UInt32 :=
  UInt32.ofNat (v % 4294967296).toNat

/-- The twelve values of `_NET_WM_STRUT_PARTIAL` that `bootstrap` sets: the bar's
height at the bottom edge, with its columns, for a bottom bar; at the top edge
otherwise. -/
def strutPartial (bottom : Bool) (g : BarGeometry) : List UInt32 :=
  if bottom then [0, 0, 0, cardinal g.height, 0, 0, 0, 0, 0, 0, cardinal g.x, cardinal (g.x + g.width)]
  else [0, 0, cardinal g.height, 0, 0, 0, 0, 0, cardinal g.x, cardinal (g.x + g.width), 0, 0]

section Place

variable (pct : Int → Int → Int) (mon : Monitor) (c : SizeConfig) (top bottom left right : Int)

/-- **What `bootstrap` accepts.** A bar is accepted exactly when its width and its
height with the borders fit the monitor, and it is then placed at the monitor's
origin moved by the offsets, or `offset-y` above the monitor's lower edge for a
bottom bar. -/
theorem barPlace_eq_ok {g : BarGeometry} :
    barPlace pct mon c top bottom left right = .ok g ↔
      (0 < c.width.resolve pct mon.w ∧ c.width.resolve pct mon.w ≤ mon.w ∧
        0 < c.height.resolve pct mon.h + top + bottom ∧ c.height.resolve pct mon.h + top + bottom ≤ mon.h) ∧
      g = ⟨c.offsetX.resolve pct mon.w + mon.x,
        if c.bottom then mon.y + mon.h - (c.height.resolve pct mon.h + top + bottom) - c.offsetY.resolve pct mon.h
        else c.offsetY.resolve pct mon.h + mon.y,
        c.width.resolve pct mon.w, c.height.resolve pct mon.h + top + bottom, top, bottom, left, right⟩ := by
  simp only [barPlace]
  by_cases hw : c.width.resolve pct mon.w ≤ 0 ∨ c.width.resolve pct mon.w > mon.w
  · rw [if_pos hw]; exact ⟨nofun, fun ⟨h, _⟩ => by omega⟩
  rw [if_neg hw]
  by_cases hh : c.height.resolve pct mon.h + top + bottom ≤ 0 ∨ c.height.resolve pct mon.h + top + bottom > mon.h
  · rw [if_pos hh]; exact ⟨nofun, fun ⟨h, _⟩ => by omega⟩
  rw [if_neg hh]
  exact ⟨by rintro ⟨⟩; exact ⟨by omega, rfl⟩, by rintro ⟨-, rfl⟩; rfl⟩

/-- **The strut does not follow the bar.** For every bar `bootstrap` accepts, moving
its monitor down by `d` rows moves the bar down by `d`, and changing a plain
`offset-y` by `d` moves it by `d` (up for a bottom bar); in both cases
`_NET_WM_STRUT_PARTIAL`, which the window manager reads from the screen's edges,
stays the same. -/
theorem strut_ignores_vertical_place {g : BarGeometry} (hg : barPlace pct mon c top bottom left right = .ok g)
    (hoff : c.offsetY.percent = false) (d : Int) :
    (∃ g', barPlace pct { mon with y := mon.y + d } c top bottom left right = .ok g' ∧ g'.y = g.y + d ∧
      strutPartial c.bottom g' = strutPartial c.bottom g) ∧
    (∃ g', barPlace pct mon { c with offsetY := ⟨c.offsetY.value + d, false⟩ } top bottom left right = .ok g' ∧
      g'.y = (if c.bottom then g.y - d else g.y + d) ∧ strutPartial c.bottom g' = strutPartial c.bottom g) := by
  obtain ⟨hfit, rfl⟩ := (barPlace_eq_ok pct mon c top bottom left right).mp hg
  have hres : ∀ v : Int, (⟨v, false⟩ : Length).resolve pct mon.h = v := fun v => by simp [Length.resolve]
  have hy : c.offsetY.resolve pct mon.h = c.offsetY.value := by simp [Length.resolve, hoff]
  refine ⟨⟨_, (barPlace_eq_ok pct _ c top bottom left right).mpr ⟨hfit, rfl⟩, ?_, ?_⟩,
    ⟨_, (barPlace_eq_ok pct mon _ top bottom left right).mpr ⟨hfit, rfl⟩, ?_, ?_⟩⟩
  · split <;> simp <;> omega
  · cases c.bottom <;> rfl
  · simp only [hres, hy]; split <;> omega
  · cases c.bottom <;> rfl

end Place

/-- A 24-row bar at the top of a 1920 by 1080 monitor below another one: it covers the
rows from 1080 on, and reserves the top 24 rows of the screen. -/
example :
    barPlace (fun _ t => t) ⟨0, 1080, 1920, 1080⟩ ⟨⟨100, false⟩, ⟨24, false⟩, ⟨0, false⟩, ⟨0, false⟩, false⟩
      0 0 0 0 = .ok ⟨0, 1080, 100, 24, 0, 0, 0, 0⟩ ∧
    strutPartial false ⟨0, 1080, 100, 24, 0, 0, 0, 0⟩ = [0, 0, 24, 0, 0, 0, 0, 0, 0, 100, 0, 0] :=
  ⟨rfl, rfl⟩

end Lemonbuddy
