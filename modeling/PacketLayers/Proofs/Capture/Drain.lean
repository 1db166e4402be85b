import PacketLayers.Capture.Source
import PacketLayers.Proofs.Capture.Refill

namespace PacketLayers.Source

variable {s : Source}

/-- What the pulls of a source give, up to the end or the first error. -/
def readings (s : Source) : List Reading := s.drain.1.map (·.reading)

theorem drain_of_packet {p : Packet} (h : s.next.1.reading = .packet p) :
    s.drain = s.next.2.drain.map (s.next.1 :: ·) id := by
  rw [drain]
  split
  · rename_i pull rest found
    rw [found] at h
    split
    · rw [found]
    · simp_all
    · simp_all

theorem drain_of_end (h : ∀ p, s.next.1.reading ≠ .packet p) :
    s.drain = ([s.next.1], s.next.2) := by
  rw [drain]
  split
  · rename_i pull rest found
    rw [found] at h
    split
    · rename_i p packet
      exact absurd packet (h p)
    · rw [found]
    · rw [found]

theorem readings_of_packet {p : Packet} (h : s.next.1.reading = .packet p) :
    s.readings = .packet p :: s.next.2.readings := by
  rw [readings, drain_of_packet h, ← h]
  rfl

theorem readings_of_end (h : ∀ p, s.next.1.reading ≠ .packet p) :
    s.readings = [s.next.1.reading] := by
  rw [readings, drain_of_end h]
  rfl

theorem readings_congr {t : Source} (same : s.next.1.reading = t.next.1.reading)
    (rest : s.next.2 = t.next.2) : s.readings = t.readings := by
  by_cases h : ∃ p, t.next.1.reading = .packet p
  · obtain ⟨p, packet⟩ := h
    rw [readings_of_packet packet, readings_of_packet (same.trans packet), rest]
  · have ends : ∀ p, t.next.1.reading ≠ .packet p := fun p packet => h ⟨p, packet⟩
    rw [readings_of_end ends, readings_of_end (same ▸ ends), same]

theorem next_of_nil (h : s.ahead = []) :
    s.next.1.reading = .finished ∧ s.next.2.ahead = [] := by
  cases s with
  | legacy r =>
    obtain ⟨behind, ends, ahead⟩ := Window.fetch_of_nil r.dialect.record h
    simp only [next, Legacy.Reader.next, ends]
    exact ⟨rfl, ahead⟩
  | sections r =>
    obtain ⟨behind, ends, ahead⟩ := Window.fetch_of_nil (Block.next r.order) h
    rw [next, Sections.Reader.next]
    split
    · rename_i found
      rw [ends] at found
      cases found
    · rename_i found
      rw [ends] at found
      cases found
      exact ⟨rfl, ahead⟩
    · rename_i found
      rw [ends] at found
      cases found

theorem readings_of_nil (h : s.ahead = []) : s.readings = [.finished] := by
  have ends := (next_of_nil h).1
  rw [readings_of_end (by simp [ends]), ends]

end PacketLayers.Source
