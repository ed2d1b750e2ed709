import Lemonbuddy.Render.Basic

/-!
# The tray's place

`bar::bootstrap` sizes and places the system tray when `tray-position` names a zone.
The icon height is the bar's height between its top and bottom borders, made even,
and clamped to `tray-maxsize`, the clamped-off half going to the spacing; the width
is that height scaled by `tray-scale`. The tray's origin is the bar's right border
for a tray on the right, its left border for one on the left, and `bar::center_x()`
less half the tray's width for one in the centre, each then moved by the user's
offsets.

`bar::center_x()` halves the bar's whole root-window position along with its width:
it returns `(x + width - border_right + border_left) / 2`, where the middle of the bar
is `x + (width - border_right + border_left) / 2`. Moving a bar `2 * d` columns to the
right, onto a monitor further right or by `offset-x`, moves a tray on the left or on
the right by `2 * d`, and a tray in the centre by `d` only
(`tray_origin_translate`).

`tray-scale` is a `float`; `m_tray.width *= scale` truncates the product back to an
integer, which is the parameter `scale` here. The user's offsets are taken as
`bootstrap` computes them from `tray-offset-x` and `tray-offset-y`; `atoi` and
`math_util::percentage_to_value` are not among the sources.
-/

namespace Lemonbuddy

/-- The bar's place on the root window and its borders, as `bootstrap` leaves them in
`m_bar` and `m_borders`. -/
structure BarGeometry where
  x : Int
  y : Int
  width : Int
  height : Int
  borderTop : Int
  borderBottom : Int
  borderLeft : Int
  borderRight : Int
  deriving DecidableEq, Repr

/-- `bar::center_x()`. -/
def centerX (g : BarGeometry) : Int :=
  (g.x + g.width - g.borderRight + g.borderLeft).tdiv 2

/-- The configuration the tray setup reads: the spacing `tray_settings` starts with,
`tray-maxsize` (16 by default), `tray-padding`, the offsets, and the origin
`tray_settings` starts with. -/
structure TrayConfig where
  spacing : Int
  maxsize : Int
  padding : Int
  offsetX : Int
  offsetY : Int
  origX : Int
  deriving DecidableEq, Repr

/-- What the tray setup writes into `m_tray`. -/
structure TrayPlace where
  height : Int
  heightFill : Int
  width : Int
  spacing : Int
  origX : Int
  origY : Int
  deriving DecidableEq, Repr

/-- The tray setup of `bar::bootstrap`, run when the tray's alignment is not `NONE`. -/
def traySetup (g : BarGeometry) (align : Alignment) (c : TrayConfig) (scale : Int → Int) : TrayPlace :=
  let height := g.height - g.borderBottom - g.borderTop
  let heightFill := height
  let height := if height.tmod 2 ≠ 0 then height - 1 else height
  let spacing := if height > c.maxsize then c.spacing + (height - c.maxsize).tdiv 2 else c.spacing
  let height := if height > c.maxsize then c.maxsize else height
  let width := scale height
  let origX :=
    if align = .right then g.x + g.width - g.borderRight
    else if align = .left then g.x + g.borderLeft
    else if align = .center then centerX g - width.tdiv 2
    else c.origX
  ⟨height, scale heightFill, width, spacing + c.padding, origX + c.offsetX, g.y + g.borderTop + c.offsetY⟩

/-- **The centre tray moves half as far as its bar.** For every bar whose inner middle
is to the right of the root window's origin, moving the bar `2 * d` columns to the
right moves the origin of a tray on its left or on its right by `2 * d`, and the
origin of a tray in its centre by `d`. -/
theorem tray_origin_translate (g : BarGeometry) (c : TrayConfig) (scale : Int → Int) {d : Int}
    (hd : 0 ≤ d) (hg : 0 ≤ g.x + g.width - g.borderRight + g.borderLeft) :
    let moved : BarGeometry := { g with x := g.x + 2 * d }
    (traySetup moved .left c scale).origX = (traySetup g .left c scale).origX + 2 * d ∧
      (traySetup moved .right c scale).origX = (traySetup g .right c scale).origX + 2 * d ∧
      (traySetup moved .center c scale).origX = (traySetup g .center c scale).origX + d := by
  intro moved
  refine ⟨by simp [traySetup, moved]; omega, by simp [traySetup, moved]; omega, ?_⟩
  simp only [traySetup, moved, centerX, reduceCtorEq, if_false, if_true]
  rw [Int.tdiv_eq_ediv (by omega) (by norm_num), Int.tdiv_eq_ediv hg (by norm_num)]
  omega

/-- A bar filling a second 1920-column monitor: its centre tray is placed at column
1912, on the monitor's left edge, where the bar's middle is column 2880. -/
example : (traySetup ⟨1920, 0, 1920, 20, 0, 0, 0, 0⟩ .center ⟨0, 16, 0, 0, 0, 0⟩ id).origX = 1912 := by
  decide

end Lemonbuddy
