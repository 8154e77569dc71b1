import PayloadStream.BlockSplit

/-!
# Windows into a buffer

A window is a range of a buffer that is rewritten in place; the bytes outside stay.
-/

namespace PayloadStream

/-- The range from `start` up to `stop` of a buffer. -/
structure Window where
  buffer : Buffer
  start : Nat
  stop : Nat
  start_le_stop : start ≤ stop
  stop_le_length : stop ≤ buffer.bytes.length

namespace Window

/-- The window of two bounds, if they are bounds of the buffer. -/
def ofBounds? (buffer : Buffer) (start stop : Nat) : Option Window :=
  if h : start ≤ stop ∧ stop ≤ buffer.bytes.length then some ⟨buffer, start, stop, h.1, h.2⟩
  else none

def whole (buffer : Buffer) : Window :=
  ⟨buffer, 0, buffer.bytes.length, Nat.zero_le _, Nat.le_refl _⟩

/-- The bytes in the window, as a buffer of their own. -/
def inner (w : Window) : Buffer where
  bytes := (w.buffer.bytes.drop w.start).take (w.stop - w.start)
  offset := w.buffer.offset + blockOffset w.start

/-- The buffer's bytes with those in the window replaced. -/
def write (w : Window) (bytes : List UInt8) : List UInt8 :=
  w.buffer.bytes.take w.start ++ (bytes ++ w.buffer.bytes.drop w.stop)

@[simp] theorem length_inner (w : Window) : w.inner.bytes.length = w.stop - w.start := by
  have := w.stop_le_length
  simp only [inner, List.length_take, List.length_drop]
  omega

/-- Writing back what was read changes nothing. -/
theorem write_inner (w : Window) : w.write w.inner.bytes = w.buffer.bytes := by
  have h := w.start_le_stop
  have hd : w.buffer.bytes.drop w.stop = (w.buffer.bytes.drop w.start).drop (w.stop - w.start) := by
    rw [List.drop_drop, Nat.add_sub_cancel' h]
  rw [write, inner, hd, List.take_append_drop, List.take_append_drop]

theorem length_write (w : Window) {bytes : List UInt8} (h : bytes.length = w.stop - w.start) :
    (w.write bytes).length = w.buffer.bytes.length := by
  have := w.start_le_stop
  have := w.stop_le_length
  simp only [write, List.length_append, List.length_take, List.length_drop, h]
  omega

theorem getElem?_inner (w : Window) {i : Nat} (h : i < w.stop - w.start) :
    w.inner.bytes[i]? = w.buffer.bytes[w.start + i]? := by
  rw [inner, List.getElem?_take_of_lt h, List.getElem?_drop]

theorem length_take_start (w : Window) : (w.buffer.bytes.take w.start).length = w.start := by
  have hstart := w.start_le_stop
  have hstop := w.stop_le_length
  rw [List.length_take]
  omega

section Write

variable (w : Window) {bytes : List UInt8} (h : bytes.length = w.stop - w.start)

include h

theorem getElem?_write_inside {i : Nat} (hi : w.start ≤ i ∧ i < w.stop) :
    (w.write bytes)[i]? = bytes[i - w.start]? := by
  have hfront := w.length_take_start
  rw [write, List.getElem?_append_right (by omega), hfront, List.getElem?_append_left (by omega)]

theorem getElem?_write_outside {i : Nat} (hi : i < w.start ∨ w.stop ≤ i) :
    (w.write bytes)[i]? = w.buffer.bytes[i]? := by
  have hstart := w.start_le_stop
  have hfront := w.length_take_start
  rcases hi with hi | hi
  · rw [write, List.getElem?_append_left (by omega), List.getElem?_take_of_lt hi]
  · rw [write, List.getElem?_append_right (by omega), List.getElem?_append_right (by omega), hfront,
      List.getElem?_drop]
    congr 1
    omega

/-- The bytes that were written stand in the window. -/
theorem take_drop_write : ((w.write bytes).drop w.start).take (w.stop - w.start) = bytes := by
  rw [write, List.drop_left' w.length_take_start, List.take_left' h]

end Write

end Window

end PayloadStream
