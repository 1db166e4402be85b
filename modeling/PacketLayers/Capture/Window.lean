import PacketLayers.Capture.Error

/-!
The window through which a capture file is read. It holds at most `Window.capacity` octets; a
record is parsed from those that are loaded, and more are loaded when a record needs them. A
record that can never fit is told apart from a file that ends too early.

Records and blocks are found by a library for capture formats. What is assumed of it stands here, in
`Block` and in `Legacy`. Its buffer is filled when a file is opened and never grows; a refill loads
all that there is room for. A record is parsed anew after a refill, and too large if what is loaded
and what is missing reach the capacity together. A block has the length at its front, which some
kinds compare with the one behind; options end at the first one that does not fit. For process
information of less than 12 octets and for time offsets of more than 8 octets the library has no
answer, so what is defined for them says nothing.
-/
namespace PacketLayers

structure Extent (α : Type) where
  value : α
  size : Nat
  size_pos : 0 < size

/-- Why no record was found yet. -/
inductive Stop where
  | needs (missing : Nat)
  | refused (error : ReadError)
deriving DecidableEq, Repr

structure Window where
  /-- All octets of the file that are not consumed. -/
  ahead : Bytes
  /-- How many of them are loaded. -/
  loaded : Nat
  /-- Whether the last load found no more octets. -/
  exhausted : Bool
  loaded_le_ahead : loaded ≤ ahead.length

namespace Window

def capacity : Nat := 65536

def ofFile (file : Bytes) : Window :=
  ⟨file, min file.length capacity, false, Nat.min_le_left _ _⟩

/-- Loads as many octets as there is room for. -/
def refill (w : Window) : Window :=
  let available := max w.loaded (min w.ahead.length capacity)
  ⟨w.ahead, available, available == w.loaded, by
    have := w.loaded_le_ahead
    omega⟩

def consume (w : Window) (n : Nat) : Window :=
  ⟨w.ahead.drop n, w.loaded - n, w.exhausted, by
    have := w.loaded_le_ahead
    rw [List.length_drop]
    omega⟩

def peek (w : Window) (start size : Nat) : Bytes := w.ahead.slice start size

def unread (w : Window) (start : Nat) : Bytes := (w.ahead.take w.loaded).drop start

/-- How often more octets may still be asked for. -/
def patience (w : Window) : Nat :=
  (if w.exhausted then 0 else 1) + (w.ahead.length - w.loaded)

theorem patience_refill_lt {w : Window} (live : w.exhausted = false) :
    w.refill.patience < w.patience := by
  have bound := w.refill.loaded_le_ahead
  have grows : w.loaded ≤ w.refill.loaded := Nat.le_max_left _ _
  have same : w.refill.ahead = w.ahead := rfl
  have flag : w.refill.exhausted = (w.refill.loaded == w.loaded) := rfl
  simp only [patience, live, flag, same] at *
  by_cases stuck : w.refill.loaded = w.loaded
  · simp [stuck]
  · have : (w.refill.loaded == w.loaded) = false := by simpa using stuck
    simp only [this, Bool.false_eq_true, if_false]
    omega

inductive Fetched (α : Type) where
  | record (value : α)
  | ended
  | failed (error : ReadError)

/-- Parses the next record, loading more octets as long as that can help. A record leaves the
window behind it. -/
def fetch {α : Type} (parse : Window → Except Stop (Extent α)) (w : Window) :
    Fetched α × Window :=
  if w.loaded = 0 then
    if _ : w.exhausted = false then fetch parse w.refill else (.ended, w)
  else
    match parse w with
    | .ok extent => (.record extent.value, w.consume extent.size)
    | .error (.refused e) => (.failed e, w)
    | .error (.needs missing) =>
      if _ : w.exhausted = false then
        if capacity ≤ w.loaded + missing then (.failed .tooLarge, w) else fetch parse w.refill
      else (.failed .unexpectedEnd, w)
termination_by w.patience
decreasing_by
  all_goals exact patience_refill_lt ‹_›

theorem ahead_lt_of_fetch {α : Type} {parse : Window → Except Stop (Extent α)} {w rest : Window}
    {value : α} (found : fetch parse w = (.record value, rest)) :
    rest.ahead.length < w.ahead.length := by
  fun_induction fetch parse w with
  | case1 w _ _ ih => exact ih found
  | case2 => simp at found
  | case3 w filled extent _ =>
    obtain ⟨-, rfl⟩ := Prod.mk.inj found
    have := w.loaded_le_ahead
    have := extent.size_pos
    simp only [consume, List.length_drop]
    omega
  | case4 => simp at found
  | case5 => simp at found
  | case6 w _ _ _ _ _ ih => exact ih found
  | case7 => simp at found

end Window

end PacketLayers
