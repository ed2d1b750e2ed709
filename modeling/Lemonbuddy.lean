import Lemonbuddy.Color.Channel
import Lemonbuddy.Color.Parse
import Lemonbuddy.Controller
import Lemonbuddy.Controller.Update
import Lemonbuddy.Controller.Modules
import Lemonbuddy.Render.Basic
import Lemonbuddy.Render.Engine
import Lemonbuddy.Render.Actions
import Lemonbuddy.Render.Regions
import Lemonbuddy.Render.Passes
import Lemonbuddy.Render.Layout
import Lemonbuddy.Render.Nesting
import Lemonbuddy.Render.Threads
import Lemonbuddy.Render.Tray
import Lemonbuddy.Render.Place
import Lemonbuddy.Render.Lock
