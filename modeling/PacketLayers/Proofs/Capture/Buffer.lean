import PacketLayers.Proofs.Capture.Calls

/-!
The memory through which a capture is read. It keeps its size; what is consumed is passed over, and
the content is moved to the front before more octets are read behind it, so that octets of earlier
records stay in the memory on both sides of the content. A window is what the content and the rest
of the file make together, and every operation of a buffer is one of its window.
-/
namespace PacketLayers

theorem Window.eq_of {v w : Window} (ahead : v.ahead = w.ahead) (loaded : v.loaded = w.loaded)
    (exhausted : v.exhausted = w.exhausted) : v = w := by
  cases v
  cases w
  cases ahead
  cases loaded
  cases exhausted
  rfl

structure Buffer where
  memory : Bytes
  start : Nat
  stop : Nat
  /-- The octets of the file that were not read yet. -/
  unread : Bytes
  /-- Whether the last read found no more octets. -/
  exhausted : Bool
  size_eq : memory.length = Window.capacity
  start_le : start ≤ stop
  stop_le : stop ≤ Window.capacity

namespace Buffer

def content (b : Buffer) : Bytes := b.memory.slice b.start (b.stop - b.start)

theorem length_content (b : Buffer) : b.content.length = b.stop - b.start := by
  have start_le := b.start_le
  have stop_le := b.stop_le
  have size_eq := b.size_eq
  exact Bytes.length_slice (by omega)

def shift (b : Buffer) : Buffer where
  memory := b.memory.overwrite 0 b.content
  start := 0
  stop := b.stop - b.start
  unread := b.unread
  exhausted := b.exhausted
  size_eq := by
    have length := b.length_content
    have stop_le := b.stop_le
    have size_eq := b.size_eq
    rw [Bytes.length_overwrite (by omega), size_eq]
  start_le := Nat.zero_le _
  stop_le := Nat.le_trans (Nat.sub_le _ _) b.stop_le

def load (b : Buffer) : Buffer where
  memory := b.memory.overwrite b.stop (b.unread.take (Window.capacity - b.stop))
  start := b.start
  stop := b.stop + (b.unread.take (Window.capacity - b.stop)).length
  unread := b.unread.drop (Window.capacity - b.stop)
  exhausted := if b.stop = Window.capacity then b.exhausted else b.unread.isEmpty
  size_eq := by
    have stop_le := b.stop_le
    have size_eq := b.size_eq
    have read := List.length_take_le (Window.capacity - b.stop) b.unread
    rw [Bytes.length_overwrite (by omega), size_eq]
  start_le := Nat.le_trans b.start_le (Nat.le_add_right _ _)
  stop_le := by
    have stop_le := b.stop_le
    have read := List.length_take_le (Window.capacity - b.stop) b.unread
    omega

def refill (b : Buffer) : Buffer := b.shift.load

/-- Passes over octets of the content, and moves the others when half of the memory is behind. -/
def consume (b : Buffer) (n : Nat) : Buffer :=
  let passed : Buffer :=
    { b with
      start := b.start + min n (b.stop - b.start)
      start_le := by
        have start_le := b.start_le
        omega }
  if Window.capacity / 2 < passed.start then passed.shift else passed

theorem content_shift (b : Buffer) : b.shift.content = b.content := by
  change Bytes.slice (b.memory.overwrite 0 b.content) 0 (b.stop - b.start) = b.content
  rw [Bytes.slice, Bytes.overwrite, List.take_zero, List.nil_append, List.drop_zero,
    ← b.length_content, List.take_left]

theorem content_load (b : Buffer) :
    b.load.content = b.content ++ b.unread.take (Window.capacity - b.stop) := by
  have start_le := b.start_le
  have stop_le := b.stop_le
  have size_eq := b.size_eq
  have front : (b.memory.take b.stop).drop b.start = b.content := List.drop_take
  have length := b.length_content
  change Bytes.slice (b.memory.overwrite b.stop _) b.start
    (b.stop + (b.unread.take (Window.capacity - b.stop)).length - b.start) = _
  rw [Bytes.slice, Bytes.overwrite, List.drop_append_of_le_length (by rw [List.length_take]; omega),
    front, ← List.append_assoc]
  apply List.take_left'
  rw [List.length_append, length]
  omega

theorem content_consume (b : Buffer) (n : Nat) : (b.consume n).content = b.content.drop n := by
  have passed : Bytes.slice b.memory (b.start + min n (b.stop - b.start))
      (b.stop - (b.start + min n (b.stop - b.start))) = b.content.drop n := by
    rw [content, Bytes.slice, Bytes.slice, List.drop_take, List.drop_drop]
    rcases Nat.le_total n (b.stop - b.start) with inside | beyond
    · rw [Nat.min_eq_left inside, Nat.sub_sub]
    · rw [Nat.min_eq_right beyond, Nat.sub_eq_zero_of_le beyond, List.take_zero]
      have none : b.stop - (b.start + (b.stop - b.start)) = 0 := by omega
      rw [none, List.take_zero]
  unfold consume
  dsimp only
  split
  · rw [content_shift]
    exact passed
  · exact passed

/-- The content and what is behind it in the file. -/
def window (b : Buffer) : Window :=
  ⟨b.content ++ b.unread, b.content.length, b.exhausted, by simp⟩

@[simp] theorem seen_window (b : Buffer) : b.window.seen = b.content := List.take_left

theorem window_refill {b : Buffer} (room : b.content.length < Window.capacity) :
    b.refill.window = b.window.refill := by
  -- Moving the content to the front changes nothing that the window shows; reading adds behind it.
  have content := b.shift.content_load
  rw [b.content_shift] at content
  have stop : b.shift.stop = b.content.length := b.length_content.symm
  have read : (b.unread.take (Window.capacity - b.content.length)).length =
      min (Window.capacity - b.content.length) b.unread.length := List.length_take
  have unread : b.shift.unread = b.unread := rfl
  rw [unread, stop] at content
  have ahead : b.window.ahead.length = b.content.length + b.unread.length := List.length_append
  apply Window.eq_of
  · change b.refill.content ++ b.unread.drop (Window.capacity - b.shift.stop) = b.window.ahead
    rw [refill, content, stop, List.append_assoc, List.take_append_drop]
    rfl
  · change b.refill.content.length =
      max b.content.length (min b.window.ahead.length Window.capacity)
    rw [refill, content, List.length_append, read, ahead]
    omega
  · change (if b.shift.stop = Window.capacity then b.exhausted else b.unread.isEmpty) =
      (max b.content.length (min b.window.ahead.length Window.capacity) == b.content.length)
    rw [stop, if_neg (Nat.ne_of_lt room), ahead]
    cases b.unread with
    | nil =>
      have same : max b.content.length (min (b.content.length + 0) Window.capacity) =
          b.content.length := by omega
      exact (beq_iff_eq.mpr same).symm
    | cons octet rest =>
      have grows : max b.content.length (min (b.content.length + (rest.length + 1))
          Window.capacity) ≠ b.content.length := by omega
      exact (beq_false_of_ne grows).symm

theorem window_consume {b : Buffer} {n : Nat} (inside : n ≤ b.content.length) :
    (b.consume n).window = b.window.consume n := by
  have unread : (b.consume n).unread = b.unread := by
    unfold consume
    dsimp only
    split <;> rfl
  have exhausted : (b.consume n).exhausted = b.exhausted := by
    unfold consume
    dsimp only
    split <;> rfl
  apply Window.eq_of
  · change (b.consume n).content ++ (b.consume n).unread = (b.content ++ b.unread).drop n
    rw [unread, b.content_consume, List.drop_append_of_le_length inside]
  · change (b.consume n).content.length = b.content.length - n
    rw [b.content_consume, List.length_drop]
  · exact exhausted

end Buffer

end PacketLayers
