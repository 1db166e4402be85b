import PacketLayers.Proofs.Capture.Pieces

namespace PacketLayers

namespace Window

variable {α : Type} {parse : Window → Except Stop (Extent α)} {w rest : Window}

theorem fetch_again_of_ended (ended : w.fetch parse = (.ended, rest)) :
    rest.fetch parse = (.ended, rest) := by
  fun_induction fetch parse w with
  | case1 w idle live ih => exact ih ended
  | case2 w idle stuck =>
    cases ended
    exact fetch_of_over idle stuck
  | case3 => cases ended
  | case4 => cases ended
  | case5 => cases ended
  | case6 w busy missing asks live room ih => exact ih ended
  | case7 => cases ended

theorem fetch_again_of_failed {e : ReadError} (failed : w.fetch parse = (.failed e, rest)) :
    rest.fetch parse = (.failed e, rest) := by
  fun_induction fetch parse w with
  | case1 w idle live ih => exact ih failed
  | case2 => cases failed
  | case3 => cases failed
  | case4 w busy error refuses =>
    cases failed
    exact fetch_of_refused busy refuses
  | case5 w busy missing asks live full =>
    cases failed
    exact fetch_of_full busy asks live full
  | case6 w busy missing asks live room ih => exact ih failed
  | case7 w busy missing asks stuck =>
    cases failed
    exact fetch_of_stuck busy asks stuck

end Window

namespace Settings

/-- One call: pieces without a packet, and then what it gives. -/
inductive Call : Settings → Window → Reading → Settings → Window → Prop where
  | packet {c behind : Settings} {w rest : Window} {p : Packet}
      (fetched : w.fetch c.piece = (.record ⟨some p, behind⟩, rest)) :
      Call c w (.packet p) behind rest
  | other {c behind last : Settings} {w rest final : Window} {reading : Reading}
      (fetched : w.fetch c.piece = (.record ⟨none, behind⟩, rest))
      (onward : Call behind rest reading last final) : Call c w reading last final
  | ended {c : Settings} {w rest : Window} (fetched : w.fetch c.piece = (.ended, rest)) :
      Call c w .finished c rest
  | failed {c : Settings} {w rest : Window} {e : ReadError}
      (fetched : w.fetch c.piece = (.failed e, rest)) :
      Call c w (.failed (.during "reader next" e)) c rest

variable {c behind : Settings} {w rest : Window} {reading : Reading}

theorem Call.next_eq (call : Call c w reading behind rest) :
    (c.source w).next.1.reading = reading ∧ (c.source w).next.2 = behind.source rest := by
  induction call with
  | packet fetched => exact next_of_packet fetched
  | other fetched onward ih =>
    obtain ⟨same, next⟩ := next_of_other fetched
    rw [same, next]
    exact ih
  | ended fetched => exact next_of_ended fetched
  | failed fetched => exact next_of_failed fetched

theorem exists_call (c : Settings) (w : Window) :
    ∃ (reading : Reading) (behind : Settings) (rest : Window), Call c w reading behind rest := by
  -- Every piece shortens what is ahead.
  generalize size : w.ahead.length = length
  induction length using Nat.strongRecOn generalizing c w with
  | ind length ih =>
    match fetched : w.fetch c.piece with
    | (.record ⟨some p, behind⟩, rest) => exact ⟨_, _, _, .packet fetched⟩
    | (.record ⟨none, behind⟩, rest) =>
      have shorter : rest.ahead.length < length := by
        rw [← size]
        exact Window.ahead_lt_of_fetch fetched
      obtain ⟨reading, last, final, onward⟩ := ih _ shorter behind rest rfl
      exact ⟨reading, last, final, .other fetched onward⟩
    | (.ended, rest) => exact ⟨_, _, _, .ended fetched⟩
    | (.failed e, rest) => exact ⟨_, _, _, .failed fetched⟩

theorem call_next (c : Settings) (w : Window) :
    ∃ (behind : Settings) (rest : Window),
      Call c w (c.source w).next.1.reading behind rest ∧
        (c.source w).next.2 = behind.source rest := by
  obtain ⟨reading, behind, rest, call⟩ := exists_call c w
  obtain ⟨same, next⟩ := call.next_eq
  exact ⟨behind, rest, same ▸ call, next⟩

theorem Call.usable (call : Call c w reading behind rest) (usable : c.Usable) : behind.Usable := by
  induction call with
  | packet fetched => exact usable_of_fetch usable fetched
  | other fetched onward ih => exact ih (usable_of_fetch usable fetched)
  | ended => exact usable
  | failed => exact usable

theorem Call.again (call : Call c w reading behind rest) (ends : ∀ p, reading ≠ .packet p) :
    Call behind rest reading behind rest := by
  induction call with
  | packet fetched => exact absurd rfl (ends _)
  | other fetched onward ih => exact ih ends
  | ended fetched => exact .ended (Window.fetch_again_of_ended fetched)
  | failed fetched => exact .failed (Window.fetch_again_of_failed fetched)

end Settings

def Reading.packet? : Reading → Option Packet
  | .packet p => some p
  | _ => none

namespace Source

variable {s : Source}

def after (s : Source) : Nat → Source
  | 0 => s
  | i + 1 => s.next.2.after i

/-- What a call gives, the calls being counted from zero. -/
def reading (s : Source) (i : Nat) : Reading := (s.after i).next.1.reading

def packets (s : Source) : List Packet := s.readings.filterMap Reading.packet?

theorem packets_of_packet {p : Packet} (h : s.next.1.reading = .packet p) :
    s.packets = p :: s.next.2.packets := by
  rw [packets, readings_of_packet h]
  rfl

theorem packets_of_end (h : ∀ p, s.next.1.reading ≠ .packet p) : s.packets = [] := by
  rw [packets, readings_of_end h]
  cases first : s.next.1.reading with
  | packet p => exact absurd first (h p)
  | finished => rfl
  | failed e => rfl

theorem next_of_packets {p : Packet} {ps : List Packet} (h : s.packets = p :: ps) :
    s.next.1.reading = .packet p ∧ s.next.2.packets = ps := by
  by_cases packet : ∃ q, s.next.1.reading = .packet q
  · obtain ⟨q, found⟩ := packet
    rw [packets_of_packet found] at h
    obtain ⟨rfl, rest⟩ := List.cons.inj h
    exact ⟨found, rest⟩
  · rw [packets_of_end fun q found => packet ⟨q, found⟩] at h
    cases h

theorem end_of_packets (h : s.packets = []) (p : Packet) : s.next.1.reading ≠ .packet p := by
  intro found
  rw [packets_of_packet found] at h
  cases h

theorem next_again (ends : ∀ p, s.next.1.reading ≠ .packet p) :
    s.next.2.next.1.reading = s.next.1.reading ∧ s.next.2.next.2 = s.next.2 := by
  obtain ⟨c, w, rfl⟩ := Settings.exists_source s
  obtain ⟨behind, rest, call, next⟩ := Settings.call_next c w
  rw [next]
  exact (call.again ends).next_eq

theorem reading_of_end (ends : ∀ p, s.next.1.reading ≠ .packet p) (i : Nat) :
    s.reading i = s.next.1.reading := by
  induction i generalizing s with
  | zero => rfl
  | succ i ih =>
    have again := (next_again ends).1
    have later : s.next.2.reading i = s.next.2.next.1.reading := by
      apply ih
      rw [again]
      exact ends
    rw [← again, ← later]
    rfl

theorem reading_eq (s : Source) :
    ∃ last : Reading, (∀ p, last ≠ .packet p) ∧
      ∀ i, s.reading i = (s.packets[i]?.map .packet).getD last := by
  generalize given : s.packets = packets
  induction packets generalizing s with
  | nil =>
    have ends := end_of_packets given
    refine ⟨s.next.1.reading, ends, ?_⟩
    intro i
    rw [reading_of_end ends]
    rfl
  | cons p ps ih =>
    obtain ⟨first, rest⟩ := next_of_packets given
    obtain ⟨last, other, readings⟩ := ih s.next.2 rest
    refine ⟨last, other, ?_⟩
    intro i
    cases i with
    | zero => exact first
    | succ i => exact readings i

theorem reading_of_readings_eq {packets : List Packet}
    (readings : s.readings = packets.map .packet ++ [.finished]) (i : Nat) :
    s.reading i = (packets[i]?.map .packet).getD .finished := by
  induction packets generalizing s i with
  | nil =>
    have ends := reading_of_readings readings
    rw [reading_of_end (by simp [ends]), ends]
    rfl
  | cons p packets ih =>
    cases i with
    | zero => exact reading_of_readings readings
    | succ i => exact ih (readings_of_cons readings) i

theorem reading_congr {t : Source} (same : s.readings = t.readings) (i : Nat) :
    s.reading i = t.reading i := by
  induction i generalizing s t with
  | zero =>
    by_cases packet : ∃ p, t.next.1.reading = .packet p
    · obtain ⟨p, found⟩ := packet
      rw [readings_of_packet found] at same
      exact (reading_of_readings same).trans found.symm
    · rw [readings_of_end fun p found => packet ⟨p, found⟩] at same
      exact reading_of_readings same
  | succ i ih =>
    by_cases packet : ∃ p, t.next.1.reading = .packet p
    · obtain ⟨p, found⟩ := packet
      rw [readings_of_packet found] at same
      exact ih (readings_of_cons same)
    · have ends : ∀ p, t.next.1.reading ≠ .packet p := fun p found => packet ⟨p, found⟩
      rw [readings_of_end ends] at same
      have first := reading_of_readings same
      rw [reading_of_end ends, reading_of_end (first ▸ ends), first]

theorem reading_eq_packet_iff {i : Nat} {p : Packet} :
    s.reading i = .packet p ↔ s.packets[i]? = some p := by
  obtain ⟨last, other, readings⟩ := s.reading_eq
  rw [readings]
  cases s.packets[i]? with
  | none =>
    constructor
    · intro found
      exact absurd found (other p)
    · intro found
      cases found
  | some q =>
    constructor
    · intro found
      exact congrArg some (Reading.packet.inj found)
    · intro found
      exact congrArg Reading.packet (Option.some.inj found)

end Source

end PacketLayers
