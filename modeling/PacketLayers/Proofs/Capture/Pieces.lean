import PacketLayers.Proofs.Capture.RecordRun
import PacketLayers.Proofs.Capture.SectionRun
import PacketLayers.Proofs.Capture.Steady

/-!
Both containers as one. A capture is read piece by piece, a piece being a record or a block: it may
hold a packet, and it leaves settings behind it. A call reads pieces up to the first one with a
packet, and what is shown of pieces holds for both containers.
-/
namespace PacketLayers

def Extent.map {α β : Type} (f : α → β) (e : Extent α) : Extent β := ⟨f e.value, e.size, e.size_pos⟩

namespace Window

variable {α β : Type} {parse : Window → Except Stop (Extent α)} {f : α → β} {w : Window}

def mapped (f : α → β) (parse : Window → Except Stop (Extent α)) (w : Window) :
    Except Stop (Extent β) :=
  (parse w).map (Extent.map f)

theorem mapped_of_ok {e : Extent α} (parsed : parse w = .ok e) :
    mapped f parse w = .ok (e.map f) := by
  rw [mapped, parsed]
  rfl

theorem mapped_of_error {stop : Stop} (stops : parse w = .error stop) :
    mapped f parse w = .error stop := by
  rw [mapped, stops]
  rfl

theorem parsed_of_mapped {e : Extent β} (parsed : mapped f parse w = .ok e) :
    ∃ found, parse w = .ok found ∧ e = found.map f := by
  cases result : parse w with
  | ok found =>
    rw [mapped_of_ok result] at parsed
    exact ⟨found, rfl, (Except.ok.inj parsed).symm⟩
  | error stop =>
    rw [mapped_of_error result] at parsed
    cases parsed

def Fetched.map (f : α → β) : Fetched α → Fetched β
  | record value => .record (f value)
  | ended => .ended
  | failed e => .failed e

theorem fetch_map (f : α → β) (w : Window) :
    w.fetch (mapped f parse) =
      ((w.fetch parse).1.map f, (w.fetch parse).2) := by
  fun_induction fetch parse w with
  | case1 w idle live ih => rw [fetch_of_idle idle live, ih]
  | case2 w idle stuck => exact fetch_of_over idle stuck
  | case3 w busy extent parsed => exact fetch_of_parsed busy (mapped_of_ok parsed)
  | case4 w busy e refuses => exact fetch_of_refused busy (mapped_of_error refuses)
  | case5 w busy missing asks live full =>
    exact fetch_of_full busy (mapped_of_error asks) live full
  | case6 w busy missing asks live room ih =>
    rw [fetch_of_room busy (mapped_of_error asks) live (Nat.not_le.mp room), ih]
  | case7 w busy missing asks stuck => exact fetch_of_stuck busy (mapped_of_error asks) stuck

section Inversion

variable {behind : Window}

theorem exists_fetch_of_map {outcome : Fetched β}
    (fetched : w.fetch (mapped f parse) = (outcome, behind)) :
    ∃ found, w.fetch parse = (found, behind) ∧ found.map f = outcome := by
  rw [fetch_map] at fetched
  obtain ⟨same, rfl⟩ := Prod.mk.inj fetched
  exact ⟨_, rfl, same⟩

theorem record_of_map {value : β} (fetched : w.fetch (mapped f parse) = (.record value, behind)) :
    ∃ found, w.fetch parse = (.record found, behind) ∧ f found = value := by
  obtain ⟨found, plain, same⟩ := exists_fetch_of_map fetched
  cases found with
  | record found => exact ⟨found, plain, Fetched.record.inj same⟩
  | ended => cases same
  | failed e => cases same

theorem ended_of_map (fetched : w.fetch (mapped f parse) = (.ended, behind)) :
    w.fetch parse = (.ended, behind) := by
  obtain ⟨found, plain, same⟩ := exists_fetch_of_map fetched
  cases found with
  | record found => cases same
  | ended => exact plain
  | failed e => cases same

theorem failed_of_map {e : ReadError} (fetched : w.fetch (mapped f parse) = (.failed e, behind)) :
    w.fetch parse = (.failed e, behind) := by
  obtain ⟨found, plain, same⟩ := exists_fetch_of_map fetched
  cases found with
  | record found => cases same
  | ended => cases same
  | failed other =>
    cases same
    exact plain

end Inversion

end Window

theorem Steady.map {α β : Type} {parse : Window → Except Stop (Extent α)} (steady : Steady parse)
    (f : α → β) : Steady (Window.mapped f parse) where
  seen w := congrArg (Except.map (Extent.map f)) (steady.seen w)
  grows octets more e parsed := by
    obtain ⟨found, result, rfl⟩ := Window.parsed_of_mapped parsed
    exact Window.mapped_of_ok (steady.grows octets more found result)
  inside w e parsed := by
    obtain ⟨found, result, rfl⟩ := Window.parsed_of_mapped parsed
    exact steady.inside w found result

/-- What a reader of a capture knows besides its window. -/
inductive Settings where
  | legacy (dialect : Legacy.Dialect) (linkType : Int)
  | sections (order : ByteOrder) (interfaces : Array Interface)

/-- A record or a block, as far as it counts: its packet, and the settings behind it. -/
structure Piece where
  packet? : Option Packet
  settings : Settings

namespace Settings

def source : Settings → Window → Source
  | legacy dialect linkType, w => .legacy ⟨dialect, linkType, w⟩
  | sections order interfaces, w => .sections ⟨order, interfaces, w⟩

theorem exists_source (s : Source) : ∃ (c : Settings) (w : Window), s = c.source w := by
  cases s with
  | legacy r => exact ⟨legacy r.dialect r.linkType, r.window, rfl⟩
  | sections r => exact ⟨sections r.order r.interfaces, r.window, rfl⟩

def ofRecord (dialect : Legacy.Dialect) (linkType : Int) (r : Legacy.Record) : Piece :=
  ⟨some ⟨some (dialect.time r.seconds r.fraction), linkType, r.data⟩, legacy dialect linkType⟩

def ofBlock (r : Sections.Reader) (b : Block) : Piece :=
  ⟨r.packet? b, sections (r.apply b).1.order (r.apply b).1.interfaces⟩

/-- A packet does not depend on the window of a reader, so its settings are given any. -/
def piece : Settings → Window → Except Stop (Extent Piece)
  | legacy dialect linkType => Window.mapped (ofRecord dialect linkType) dialect.record
  | sections order interfaces =>
    Window.mapped (ofBlock ⟨order, interfaces, .ofLoaded []⟩) (Block.next order)

theorem source_ofBlock {order : ByteOrder} {interfaces : Array Interface} (w : Window)
    {rest : Window} {b : Block} :
    (ofBlock ⟨order, interfaces, .ofLoaded []⟩ b).settings.source rest =
      .sections (Sections.Reader.behind ⟨order, interfaces, w⟩ b rest) := by
  cases b <;> rfl

/-- Record headers of a usable size; sections are always usable. -/
def Usable : Settings → Prop
  | legacy dialect _ => dialect.Usable
  | sections _ _ => True

theorem usable_behind {c : Settings} {w : Window} {e : Extent Piece} (usable : c.Usable)
    (parsed : c.piece w = .ok e) : e.value.settings.Usable := by
  cases c with
  | legacy dialect linkType =>
    obtain ⟨record, -, rfl⟩ := Window.parsed_of_mapped parsed
    exact usable
  | sections order interfaces =>
    obtain ⟨block, -, rfl⟩ := Window.parsed_of_mapped parsed
    trivial

theorem usable_of_fetch {c : Settings} {w rest : Window} {piece : Piece} (usable : c.Usable)
    (fetched : w.fetch c.piece = (.record piece, rest)) : piece.settings.Usable := by
  obtain ⟨full, e, -, parsed, value, -⟩ := Window.parsed_of_fetch fetched
  rw [← value]
  exact usable_behind usable parsed

theorem steady_piece {c : Settings} (usable : c.Usable) : Steady c.piece := by
  cases c with
  | legacy dialect linkType => exact (Legacy.Dialect.steady_record usable).map _
  | sections order interfaces => exact (Block.steady_next order).map _

section Next

variable {c behind : Settings} {w rest : Window}

theorem next_of_packet {p : Packet}
    (fetched : w.fetch c.piece = (.record ⟨some p, behind⟩, rest)) :
    (c.source w).next.1.reading = .packet p ∧ (c.source w).next.2 = behind.source rest := by
  cases c with
  | legacy dialect linkType =>
    obtain ⟨record, found, same⟩ := Window.record_of_map fetched
    have next := Legacy.Reader.next_of_record (r := ⟨dialect, linkType, w⟩) found
    cases same
    rw [source, Source.next, Prod.map, next]
    exact ⟨rfl, rfl⟩
  | sections order interfaces =>
    obtain ⟨block, found, same⟩ := Window.record_of_map fetched
    have packet := congrArg Piece.packet? same
    have settings : (ofBlock _ block).settings = behind := congrArg Piece.settings same
    obtain ⟨reading, next⟩ :=
      Sections.Reader.next_of_packet (r := ⟨order, interfaces, w⟩) found packet
    rw [← settings, source_ofBlock w]
    exact ⟨reading, congrArg Source.sections next⟩

theorem next_of_other (fetched : w.fetch c.piece = (.record ⟨none, behind⟩, rest)) :
    (c.source w).next.1.reading = (behind.source rest).next.1.reading ∧
      (c.source w).next.2 = (behind.source rest).next.2 := by
  cases c with
  | legacy dialect linkType =>
    obtain ⟨record, -, same⟩ := Window.record_of_map fetched
    cases same
  | sections order interfaces =>
    obtain ⟨block, found, same⟩ := Window.record_of_map fetched
    have other := congrArg Piece.packet? same
    have settings : (ofBlock _ block).settings = behind := congrArg Piece.settings same
    obtain ⟨reading, next⟩ :=
      Sections.Reader.next_of_other (r := ⟨order, interfaces, w⟩) found other
    rw [← settings, source_ofBlock w]
    exact ⟨reading, congrArg Source.sections next⟩

theorem next_of_ended (fetched : w.fetch c.piece = (.ended, rest)) :
    (c.source w).next.1.reading = .finished ∧ (c.source w).next.2 = c.source rest := by
  cases c with
  | legacy dialect linkType =>
    have ended := Window.ended_of_map fetched
    rw [source, Source.next, Prod.map, Legacy.Reader.next, ended]
    exact ⟨rfl, rfl⟩
  | sections order interfaces =>
    have ended := Window.ended_of_map fetched
    rw [source, Source.next, Sections.Reader.next]
    split
    · rename_i found
      rw [ended] at found
      cases found
    · rename_i found
      rw [ended] at found
      cases found
      exact ⟨rfl, rfl⟩
    · rename_i found
      rw [ended] at found
      cases found

theorem next_of_failed {e : ReadError} (fetched : w.fetch c.piece = (.failed e, rest)) :
    (c.source w).next.1.reading = .failed (.during "reader next" e) ∧
      (c.source w).next.2 = c.source rest := by
  cases c with
  | legacy dialect linkType =>
    have failed := Window.failed_of_map fetched
    rw [source, Source.next, Prod.map, Legacy.Reader.next, failed]
    exact ⟨rfl, rfl⟩
  | sections order interfaces =>
    have failed := Window.failed_of_map fetched
    rw [source, Source.next, Sections.Reader.next]
    split
    · rename_i found
      rw [failed] at found
      cases found
    · rename_i found
      rw [failed] at found
      cases found
    · rename_i found
      rw [failed] at found
      cases found
      exact ⟨rfl, rfl⟩

end Next

end Settings

end PacketLayers
