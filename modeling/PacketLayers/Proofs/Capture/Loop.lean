import PacketLayers.Proofs.Capture.Buffer

/-!
A call as a loop over a buffer. A turn looks at the content of the memory once: it takes a piece,
reads more octets, or gives something and stops. Every turn that goes on leaves less to do, so the
loop ends, and it gives what the call gives, whatever octets the memory held before.
-/
namespace PacketLayers

/-- What is left to do: octets to consume, octets to load, and a load that finds none. -/
def Window.work (w : Window) : Nat := w.ahead.length + w.patience

theorem Window.work_refill_lt {w : Window} (live : w.exhausted = false) :
    w.refill.work < w.work :=
  Nat.add_lt_add_left (patience_refill_lt live) _

theorem Window.work_consume_lt {w : Window} {n : Nat} (busy : w.loaded ≠ 0) (some : 0 < n) :
    (w.consume n).work < w.work := by
  have bound := w.loaded_le_ahead
  have ahead : (w.consume n).ahead.length = w.ahead.length - n := List.length_drop
  have loaded : (w.consume n).loaded = w.loaded - n := rfl
  have exhausted : (w.consume n).exhausted = w.exhausted := rfl
  simp only [work, patience, ahead, loaded, exhausted]
  omega

structure Loop where
  settings : Settings
  buffer : Buffer

inductive Turn where
  | goesOn (behind : Loop)
  | gives (reading : Reading) (behind : Loop)

namespace Loop

def refilled (l : Loop) : Loop := { l with buffer := l.buffer.refill }

def past (l : Loop) (e : Extent Piece) : Loop := ⟨e.value.settings, l.buffer.consume e.size⟩

def take (l : Loop) (e : Extent Piece) : Turn :=
  match e.value.packet? with
  | some p => .gives (.packet p) (l.past e)
  | none => .goesOn (l.past e)

def turn (l : Loop) : Turn :=
  if l.buffer.content.length = 0 then
    if l.buffer.exhausted then .gives .finished l else .goesOn l.refilled
  else
    match l.settings.piece (.ofLoaded l.buffer.content) with
    | .ok e => l.take e
    | .error (.refused e) => .gives (.failed (.during "reader next" e)) l
    | .error (.needs missing) =>
      if l.buffer.exhausted then .gives (.failed (.during "reader next" .unexpectedEnd)) l
      else if Window.capacity ≤ l.buffer.content.length + missing then
        .gives (.failed (.during "reader next" .tooLarge)) l
      else .goesOn l.refilled

/-- The loop ends after so many turns, and gives a reading. -/
inductive Ends : Loop → Nat → Reading → Loop → Prop where
  | gives {l behind : Loop} {reading : Reading} (stops : l.turn = .gives reading behind) :
      Ends l 1 reading behind
  | goesOn {l next behind : Loop} {turns : Nat} {reading : Reading}
      (continues : l.turn = .goesOn next) (onward : Ends next turns reading behind) :
      Ends l (turns + 1) reading behind

/-- Calls one after the other, none of more turns than a limit. -/
inductive Calls (limit : Nat) : Loop → List Reading → Loop → Prop where
  | none {l : Loop} : Calls limit l [] l
  | call {l next behind : Loop} {turns : Nat} {reading : Reading} {readings : List Reading}
      (ends : Ends l turns reading next) (within : turns ≤ limit)
      (more : Calls limit next readings behind) : Calls limit l (reading :: readings) behind

def window (l : Loop) : Window := l.buffer.window

def source (l : Loop) : Source := l.settings.source l.window

end Loop

namespace Settings

theorem Call.of_fetch_eq {c behind : Settings} {v w rest : Window} {reading : Reading}
    (same : w.fetch c.piece = v.fetch c.piece) (call : Call c v reading behind rest) :
    Call c w reading behind rest := by
  cases call with
  | packet fetched => exact .packet (same.trans fetched)
  | other fetched onward => exact .other (same.trans fetched) onward
  | ended fetched => exact .ended (same.trans fetched)
  | failed fetched => exact .failed (same.trans fetched)

end Settings

namespace Loop

variable {l : Loop}

theorem piece_window (usable : l.settings.Usable) :
    l.settings.piece (.ofLoaded l.buffer.content) = l.settings.piece l.window := by
  rw [(Settings.steady_piece usable).seen l.window, window, Buffer.seen_window]

theorem past_window (usable : l.settings.Usable) {e : Extent Piece}
    (parsed : l.settings.piece l.window = .ok e) :
    (l.past e).window = l.window.consume e.size :=
  Buffer.window_consume ((Settings.steady_piece usable).inside l.window e parsed)

/-- The call of a source that a loop stands for gives a reading, and leaves another loop. -/
def Does (l : Loop) (reading : Reading) (behind : Loop) : Prop :=
  Settings.Call l.settings l.window reading behind.settings behind.window

/-- What a turn has to do with a call: either it ends one, or a call that goes on behind it is one
from before it, with less left to do. -/
def Serves (l : Loop) : Turn → Prop
  | .gives reading behind =>
    l.Does reading behind ∧ behind.window.work ≤ l.window.work ∧ behind.settings.Usable
  | .goesOn next =>
    (∀ (reading : Reading) (behind : Loop), next.Does reading behind → l.Does reading behind) ∧
      next.window.work < l.window.work ∧ next.settings.Usable

theorem serves_stop (usable : l.settings.Usable) {reading : Reading} (does : l.Does reading l) :
    l.Serves (.gives reading l) :=
  ⟨does, Nat.le_refl _, usable⟩

theorem serves_refilled (usable : l.settings.Usable)
    (room : l.buffer.content.length < Window.capacity) (live : l.window.exhausted = false)
    (same : l.window.fetch l.settings.piece = l.window.refill.fetch l.settings.piece) :
    l.Serves (.goesOn l.refilled) := by
  have window : l.refilled.window = l.window.refill := Buffer.window_refill room
  refine ⟨?_, ?_, usable⟩
  · intro reading behind call
    rw [Does, window] at call
    exact Settings.Call.of_fetch_eq same call
  · rw [window]
    exact Window.work_refill_lt live

theorem serves_take (usable : l.settings.Usable) (busy : l.window.loaded ≠ 0) {e : Extent Piece}
    (parsed : l.settings.piece l.window = .ok e) : l.Serves (l.take e) := by
  have fetched := Window.fetch_of_parsed busy parsed
  have window := past_window usable parsed
  have less := Window.work_consume_lt busy e.size_pos
  have behind := Settings.usable_behind usable parsed
  rw [← window] at fetched less
  rw [take]
  cases packet : e.value.packet? with
  | some p =>
    have piece : e.value = ⟨some p, (l.past e).settings⟩ := by rw [← packet]; rfl
    rw [piece] at fetched
    exact ⟨.packet fetched, Nat.le_of_lt less, behind⟩
  | none =>
    have piece : e.value = ⟨none, (l.past e).settings⟩ := by rw [← packet]; rfl
    rw [piece] at fetched
    exact ⟨fun _ _ call => .other fetched call, less, behind⟩

theorem serves_turn (usable : l.settings.Usable) : l.Serves l.turn := by
  have spent : l.buffer.exhausted = true → ¬ l.window.exhausted = false := by
    intro exhausted live
    exact Bool.noConfusion (exhausted.symm.trans live)
  rw [turn, piece_window usable]
  -- A turn looks at the content in the order in which a call of the window does.
  by_cases idle : l.buffer.content.length = 0
  · rw [if_pos idle]
    cases exhausted : l.buffer.exhausted with
    | true => exact serves_stop usable (.ended (Window.fetch_of_over idle (spent exhausted)))
    | false =>
      apply serves_refilled usable _ exhausted (Window.fetch_of_idle idle exhausted)
      rw [idle]
      decide
  · rw [if_neg idle]
    cases found : l.settings.piece l.window with
    | ok e => exact serves_take usable idle found
    | error stop =>
      cases stop with
      | refused e => exact serves_stop usable (.failed (Window.fetch_of_refused idle found))
      | needs missing =>
        cases exhausted : l.buffer.exhausted with
        | true =>
          apply serves_stop usable
          exact .failed (Window.fetch_of_stuck idle found (spent exhausted))
        | false =>
          by_cases full : Window.capacity ≤ l.buffer.content.length + missing
          · simp only [if_pos full]
            exact serves_stop usable (.failed (Window.fetch_of_full idle found exhausted full))
          · simp only [if_neg full]
            have room : l.buffer.content.length + missing < Window.capacity := Nat.not_le.mp full
            exact serves_refilled usable (by omega) exhausted
              (Window.fetch_of_room idle found exhausted room)

/-- The loop ends, and does on its memory what a call does on a window. -/
theorem exists_ends (usable : l.settings.Usable) :
    ∃ (turns : Nat) (reading : Reading) (behind : Loop), l.Ends turns reading behind ∧
      l.Does reading behind ∧ turns ≤ l.window.work + 1 ∧
      behind.window.work ≤ l.window.work ∧ behind.settings.Usable := by
  -- On what is left to do, which every turn that goes on makes less.
  generalize left : l.window.work = work
  induction work using Nat.strongRecOn generalizing l with
  | ind work ih =>
    have serves := serves_turn usable
    cases turned : l.turn with
    | gives reading behind =>
      rw [turned] at serves
      obtain ⟨does, less, later⟩ := serves
      exact ⟨1, reading, behind, .gives turned, does, by omega, by omega, later⟩
    | goesOn next =>
      rw [turned] at serves
      obtain ⟨onward, less, later⟩ := serves
      obtain ⟨turns, reading, behind, ends, does, within, rest, last⟩ :=
        ih next.window.work (by omega) later rfl
      refine ⟨turns + 1, reading, behind, .goesOn turned ends, ?_, by omega, by omega, last⟩
      exact onward reading behind does

theorem exists_calls (usable : l.settings.Usable) {limit : Nat} (bound : l.window.work < limit)
    (n : Nat) :
    ∃ behind, Calls limit l ((List.range n).map l.source.reading) behind := by
  induction n generalizing l with
  | zero => exact ⟨l, .none⟩
  | succ n ih =>
    obtain ⟨turns, reading, next, ends, does, within, less, later⟩ := exists_ends usable
    obtain ⟨same, onward⟩ := Settings.Call.next_eq does
    obtain ⟨behind, more⟩ := ih later (by omega)
    have readings : (List.range (n + 1)).map l.source.reading =
        reading :: (List.range n).map next.source.reading := by
      have first : l.source.reading 0 = reading := same
      have others : l.source.reading ∘ Nat.succ = next.source.reading := by
        funext i
        change (l.source.next.2.after i).next.1.reading = (next.source.after i).next.1.reading
        rw [source, onward]
        rfl
      rw [List.range_succ_eq_map, List.map_cons, List.map_map, first, others]
    rw [readings]
    exact ⟨behind, .call ends (by omega) more⟩

end Loop

end PacketLayers
