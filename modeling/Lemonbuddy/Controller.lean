import Mathlib

/-!
# Forwarding clicked commands to the event loop

`controller::on_mouse_event(input)` receives the command of a clicked action
region (the `action_click` signal of `bar::handle`). It builds an
`eventloop::entry_t` of type `INPUT`, copies the command into the entry's fixed
buffer `data` with `snprintf(evt.data, sizeof(evt.data), "%s", input.c_str())`, and
enqueues it. A command longer than the buffer is dropped with a warning.

The guard and the copy disagree at one length. The guard drops only texts longer
than `sizeof(evt.data)`, but `snprintf` keeps room for the terminating NUL and
writes at most `sizeof(evt.data) - 1` characters. A command of exactly
`sizeof(evt.data)` characters therefore passes the guard and loses its last
character (`onMouseEvent_truncates`); every shorter one arrives whole
(`onMouseEvent_forwards`).

`eventloop.hpp`, which declares `entry_t`, is not among the sources, so the size of
`data` is the parameter `dataSize`.
-/

namespace Lemonbuddy

namespace Controller

/-- The kinds of `eventloop::entry_t` the controller enqueues. -/
inductive EventType
  | update
  | check
  | input
  deriving DecidableEq, Repr

/-- `eventloop::entry_t`: its type and the bytes of its buffer `data`. -/
structure Entry where
  type : EventType
  data : List Char
  deriving DecidableEq, Repr

/-- `snprintf(buf, size, "%s", s.c_str())`: the characters of the C string `s`, at
most `size - 1` of them, then the terminating NUL. -/
def snprintf (size : Nat) (s : List Char) : List Char :=
  if size = 0 then [] else (s.takeWhile (· != '\x00')).take (size - 1) ++ ['\x00']

/-- The buffer of a new entry: zero-initialised, then written by `snprintf`. -/
def fillBuffer (size : Nat) (s : List Char) : List Char :=
  snprintf size s ++ List.replicate (size - (snprintf size s).length) '\x00'

/-- A C string read from a buffer: its characters up to the first NUL. -/
def cString (buf : List Char) : List Char :=
  buf.takeWhile (· != '\x00')

/-- `controller::on_mouse_event(input)` on the event queue. -/
def onMouseEvent (dataSize : Nat) (queue : List Entry) (input : List Char) : List Entry :=
  if input.length > dataSize then queue
  else queue ++ [⟨.input, fillBuffer dataSize input⟩]

theorem takeWhile_ne_nul {s : List Char} (h : '\x00' ∉ s) : s.takeWhile (· != '\x00') = s := by
  rw [List.takeWhile_eq_self_iff]
  intro c hc
  have : c ≠ '\x00' := fun hc0 => h (hc0 ▸ hc)
  simpa using this

/-- What the entry's buffer holds, read as a C string: the command cut to
`dataSize - 1` characters. -/
theorem cString_fillBuffer {size : Nat} (hsize : 0 < size) {s : List Char} (h : '\x00' ∉ s) :
    cString (fillBuffer size s) = s.take (size - 1) := by
  have hcut : '\x00' ∉ s.take (size - 1) := fun hm => h (List.mem_of_mem_take hm)
  simp only [cString, fillBuffer, snprintf, Nat.pos_iff_ne_zero.mp hsize, if_false,
    takeWhile_ne_nul h, List.append_assoc, List.takeWhile_append_of_pos,
    takeWhile_ne_nul hcut]
  rw [List.takeWhile_append]
  simp [takeWhile_ne_nul hcut]

/-- **Short commands arrive whole.** A NUL-free command shorter than the buffer is
enqueued as exactly one `INPUT` entry, whose buffer reads back as the command. -/
theorem onMouseEvent_forwards {dataSize : Nat} (queue : List Entry) {s : List Char}
    (h : '\x00' ∉ s) (hlen : s.length < dataSize) :
    ∃ e, onMouseEvent dataSize queue s = queue ++ [e] ∧ e.type = .input ∧ cString e.data = s :=
  ⟨⟨.input, fillBuffer dataSize s⟩, by simp [onMouseEvent, Nat.not_lt.mpr hlen.le], rfl, by
    rw [cString_fillBuffer (by omega) h, List.take_of_length_le (by omega)]⟩

/-- **A command of exactly the buffer's size is cut.** It passes the length guard
and is enqueued, but its buffer reads back without its last character. -/
theorem onMouseEvent_truncates {dataSize : Nat} (hsize : 0 < dataSize) (queue : List Entry)
    {s : List Char} (h : '\x00' ∉ s) (hlen : s.length = dataSize) :
    ∃ e, onMouseEvent dataSize queue s = queue ++ [e] ∧ e.type = .input ∧
      cString e.data = s.take (dataSize - 1) ∧ cString e.data ≠ s := by
  refine ⟨⟨.input, fillBuffer dataSize s⟩, by simp [onMouseEvent, hlen], rfl,
    cString_fillBuffer hsize h, ?_⟩
  rw [cString_fillBuffer hsize h]
  intro heq
  have := congrArg List.length heq
  simp only [List.length_take] at this
  omega

theorem onMouseEvent_truncates_abcd :
    '\x00' ∉ "abcd".toList ∧ "abcd".toList.length = 4 ∧
      ∃ e, onMouseEvent 4 [] "abcd".toList = [e] ∧ e.type = .input ∧
        cString e.data = "abc".toList ∧ cString e.data ≠ "abcd".toList :=
  ⟨by decide, by decide, onMouseEvent_truncates (by decide) [] (by decide) (by decide)⟩

end Controller

end Lemonbuddy
