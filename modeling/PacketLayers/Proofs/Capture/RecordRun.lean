import PacketLayers.Proofs.Capture.Drain
import PacketLayers.Proofs.Capture.Records

/-!
What a record behind the end of a classic capture changes. The longer file is opened in the same
dialect and gives the same packets first; whether the record itself is read depends on its size,
and for one size on how much of it is loaded when its turn comes. The last theorems give all
readings of the longer file, and a record that is refused.
-/
namespace PacketLayers

namespace Source

variable {s : Source} {first : Reading} {rest : List Reading}

theorem reading_of_readings (h : s.readings = first :: rest) : s.next.1.reading = first := by
  by_cases packet : ∃ p, s.next.1.reading = .packet p
  · obtain ⟨p, found⟩ := packet
    rw [readings_of_packet found] at h
    exact found.trans (List.cons.inj h).1
  · rw [readings_of_end fun p found => packet ⟨p, found⟩] at h
    exact (List.cons.inj h).1

theorem readings_of_cons {p : Packet} (h : s.readings = .packet p :: rest) :
    s.next.2.readings = rest := by
  rw [readings_of_packet (reading_of_readings h)] at h
  exact (List.cons.inj h).2

end Source

namespace Legacy

namespace Reader

variable {r : Reader}

theorem next_of_record {record : Record} {behind : Window}
    (fetched : r.window.fetch r.dialect.record = (.record record, behind)) :
    r.next = (⟨[], .packet ⟨some (r.dialect.time record.seconds record.fraction), r.linkType,
      record.data⟩⟩, { r with window := behind }) := by
  rw [next, fetched]

theorem next_of_failed {e : ReadError} {behind : Window}
    (fetched : r.window.fetch r.dialect.record = (.failed e, behind)) :
    r.next.1.reading = .failed (.during "reader next" e) := by
  rw [next, fetched]

theorem nil_of_finished (honest : r.window.Honest) (ends : r.next.1.reading = .finished) :
    r.window.ahead = [] := by
  rw [next] at ends
  split at ends
  · cases ends
  · rename_i behind fetched
    exact Window.nil_of_fetch honest fetched
  · cases ends

theorem fetched_of_packet {p : Packet} (usable : r.dialect.Usable)
    (found : r.next.1.reading = .packet p) :
    r.dialect.sizeOf r.window.ahead ≤ r.window.ahead.length ∧
      ∃ behind, r.window.fetch r.dialect.record =
        (.record (r.dialect.recordOf r.window.ahead), behind) := by
  rw [next] at found
  split at found
  · rename_i record behind fetched
    obtain ⟨full, extent, same, parsed, value, -⟩ := Window.parsed_of_fetch fetched
    obtain ⟨whole, read, -⟩ := Dialect.whole_of_record usable parsed
    have present := Nat.le_trans whole full.loaded_le_ahead
    rw [same] at present read
    rw [← read, value]
    exact ⟨present, behind, fetched⟩
  · cases found
  · cases found

theorem open_append {file : Bytes} (opened : Reader.open file = .ok r) (more : Bytes) :
    r.dialect.Usable ∧ 24 ≤ file.length ∧ r.window = (Window.ofFile file).consume 24 ∧
      Reader.open (file ++ more) =
        .ok ⟨r.dialect, r.linkType, (Window.ofFile (file ++ more)).consume 24⟩ := by
  unfold Reader.open at opened
  simp only at opened
  split at opened
  · cases opened
  · rename_i dialect known
    split at opened
    · cases opened
    · rename_i complete
      cases opened
      have all : 24 ≤ (Window.ofFile file).loaded := by
        have last := List.find?_eq_none.mp complete 24 (by decide)
        simpa using last
      have bound : (Window.ofFile file).loaded = min file.length Window.capacity := rfl
      refine ⟨usable_of_dialect known, by omega, rfl, ?_⟩
      -- Only the first 24 octets are looked at, and they are there in both files.
      have magic : (Window.ofFile (file ++ more)).peek 0 4 = (Window.ofFile file).peek 0 4 :=
        Bytes.slice_append_of_le (by omega)
      have link : (Window.ofFile (file ++ more)).peek 20 4 = (Window.ofFile file).peek 20 4 :=
        Bytes.slice_append_of_le (by omega)
      have still : fieldEnds.find? ((Window.ofFile (file ++ more)).loaded < ·) = none := by
        refine List.find?_eq_none.mpr fun fieldEnd field => ?_
        have early : ∀ fieldEnd ∈ fieldEnds, fieldEnd ≤ 24 := by decide
        have longer : (Window.ofFile (file ++ more)).loaded =
            min (file ++ more).length Window.capacity := rfl
        have place := early fieldEnd field
        rw [List.length_append] at longer
        simp only [decide_eq_true_eq, Nat.not_lt]
        omega
      unfold Reader.open
      simp only [magic, known, still, link]

end Reader

/-- How far the window reaches behind the records of packets, while the file goes on. -/
def Dialect.reachAfter (d : Dialect) (reach : Nat) (packets : List Packet) : Nat :=
  packets.foldl (fun reach p => reachBehind reach (d.recordHeader + p.data.length)) reach

theorem reachBehind_lt {reach size : Nat} (room : reach < Window.capacity) (some : 0 < size) :
    reachBehind reach size < Window.capacity := by
  unfold reachBehind
  split <;> omega

theorem Dialect.Usable.reachAfter_lt {d : Dialect} (usable : d.Usable) {reach : Nat}
    (room : reach < Window.capacity) (packets : List Packet) :
    d.reachAfter reach packets < Window.capacity := by
  have words := usable.words
  induction packets generalizing reach with
  | nil => exact room
  | cons p packets ih =>
    apply ih
    exact reachBehind_lt room (by omega)

section Run

variable {d : Dialect} {linkType : Int} {w longer : Window} {reach : Nat} {more : Bytes}
  (usable : d.Usable) (room : reach < Window.capacity) (reaches : w.Reaches reach)
include usable room reaches

theorem readings_longer_step {p : Packet} {rest : List Reading}
    (reachesLonger : longer.Reaches reach) (ahead : longer.ahead = w.ahead ++ more)
    (readings : (Source.legacy ⟨d, linkType, w⟩).readings = .packet p :: rest) :
    ∃ behind behindLonger : Window,
      behind.Reaches (reachBehind reach (d.recordHeader + p.data.length)) ∧
      behindLonger.Reaches (reachBehind reach (d.recordHeader + p.data.length)) ∧
      behindLonger.ahead = behind.ahead ++ more ∧
      (Source.legacy ⟨d, linkType, behind⟩).readings = rest ∧
      (Source.legacy ⟨d, linkType, longer⟩).readings =
        .packet p :: (Source.legacy ⟨d, linkType, behindLonger⟩).readings := by
  have found := Source.reading_of_readings readings
  obtain ⟨whole, _, fetched⟩ := Reader.fetched_of_packet (r := ⟨d, linkType, w⟩) usable found
  simp only at whole fetched
  -- A record that the window does not admit would have failed, and a packet was read.
  have admits : d.Admits reach (d.sizeOf w.ahead) := by
    refine Decidable.byContradiction fun refused => ?_
    obtain ⟨_, fails⟩ := Dialect.fetch_of_not_admits usable reaches whole room refused
    rw [fails] at fetched
    cases fetched
  have head : d.recordHeader ≤ d.sizeOf w.ahead := Nat.le_add_right _ _
  have size : d.sizeOf longer.ahead = d.sizeOf w.ahead := by
    rw [ahead]
    exact Dialect.sizeOf_append more usable (by omega)
  have record : d.recordOf longer.ahead = d.recordOf w.ahead := by
    rw [ahead]
    exact Dialect.recordOf_append more usable whole
  have wholeLonger : d.sizeOf longer.ahead ≤ longer.ahead.length := by
    rw [size, ahead, List.length_append]
    omega
  obtain ⟨behind, fetched, left, reaches⟩ :=
    Dialect.fetch_of_admits usable reaches whole room admits
  obtain ⟨behindLonger, fetchedLonger, leftLonger, reachesLonger⟩ :=
    Dialect.fetch_of_admits usable reachesLonger wholeLonger room (by rw [size]; exact admits)
  have next := Reader.next_of_record (r := ⟨d, linkType, w⟩) fetched
  have nextLonger := Reader.next_of_record (r := ⟨d, linkType, longer⟩) fetchedLonger
  have packet : (Source.legacy ⟨d, linkType, longer⟩).next.1.reading = .packet p := by
    rw [← found]
    simp only [Source.next, Prod.map, next, nextLonger, record, id]
  have data : p.data.length = (d.recordOf w.ahead).data.length := by
    rw [Source.next, Prod.map, next] at found
    cases found
    rfl
  have step : d.recordHeader + p.data.length = d.sizeOf w.ahead := by
    rw [data]
    exact Dialect.length_recordOf whole
  rw [size] at leftLonger reachesLonger
  rw [step]
  refine ⟨behind, behindLonger, reaches, reachesLonger, ?_, ?_, ?_⟩
  · rw [left, leftLonger, ahead, List.drop_append_of_le_length whole]
  · have later := Source.readings_of_cons readings
    rw [Source.next, Prod.map, next] at later
    exact later
  · rw [Source.readings_of_packet packet, Source.next, Prod.map, nextLonger]

theorem readings_longer {packets : List Packet} (reachesLonger : longer.Reaches reach)
    (ahead : longer.ahead = w.ahead ++ more)
    (readings : (Source.legacy ⟨d, linkType, w⟩).readings = packets.map .packet ++ [.finished]) :
    ∃ last : Window, last.ahead = more ∧ last.Reaches (d.reachAfter reach packets) ∧
      (Source.legacy ⟨d, linkType, longer⟩).readings =
        packets.map .packet ++ (Source.legacy ⟨d, linkType, last⟩).readings := by
  -- On the packets: both windows have the same reach before each of them.
  induction packets generalizing w longer reach with
  | nil =>
    have ends := Source.reading_of_readings readings
    have nothing := Reader.nil_of_finished (r := ⟨d, linkType, w⟩) reaches.honest ends
    rw [nothing] at ahead
    exact ⟨longer, ahead, reachesLonger, rfl⟩
  | cons p packets ih =>
    obtain ⟨behind, behindLonger, reaches, reachesLonger, ahead, later, step⟩ :=
      readings_longer_step usable room reaches reachesLonger ahead readings
    have roomBehind := usable.reachAfter_lt room [p]
    obtain ⟨last, left, reachesLast, all⟩ := ih roomBehind reaches reachesLonger ahead later
    refine ⟨last, left, reachesLast, ?_⟩
    rw [step, all]
    rfl

end Run

/-- Whether a record is read behind packets. A record as long as the window is read only if fewer
octets of it are loaded, when its turn comes, than its header has. -/
def RecordForm.Fits {d : Dialect} (f : RecordForm d) (packets : List Packet) : Prop :=
  d.Admits (d.reachAfter (Window.capacity - 24) packets) f.size

instance {d : Dialect} (f : RecordForm d) (packets : List Packet) : Decidable (f.Fits packets) :=
  inferInstanceAs (Decidable (d.Admits _ _))

section Ahead

variable {d : Dialect} {linkType : Int} {w : Window} {reach : Nat} {rest : Bytes}
  (usable : d.Usable) (room : reach < Window.capacity) (reaches : w.Reaches reach)
include usable

theorem record_ahead (f : RecordForm d) (ahead : w.ahead = f.octets ++ rest) :
    d.sizeOf w.ahead = f.size ∧ d.recordOf w.ahead = ⟨f.seconds.toNat, f.fraction.toNat, f.data⟩ ∧
      w.ahead.drop f.size = rest ∧ f.size ≤ w.ahead.length := by
  have length := f.length_octets
  have size := f.sizeOf_octets
  have head : d.recordHeader ≤ f.size := Nat.le_add_right _ _
  rw [ahead]
  refine ⟨?_, ?_, ?_, ?_⟩
  · rw [Dialect.sizeOf_append rest usable (by omega), size]
  · rw [Dialect.recordOf_append rest usable (by omega), f.recordOf_octets]
  · rw [← length, List.drop_left]
  · rw [List.length_append, length]
    exact Nat.le_add_right _ _

include room reaches

theorem readings_record (f : RecordForm d) (ahead : w.ahead = f.octets ++ rest)
    (admits : d.Admits reach f.size) :
    ∃ behind : Window, behind.ahead = rest ∧ behind.Reaches (reachBehind reach f.size) ∧
      (Source.legacy ⟨d, linkType, w⟩).readings =
        .packet (f.packet linkType) :: (Source.legacy ⟨d, linkType, behind⟩).readings := by
  obtain ⟨size, record, left, present⟩ := record_ahead usable f ahead
  rw [← size] at admits present left ⊢
  obtain ⟨behind, fetched, rest, later⟩ :=
    Dialect.fetch_of_admits usable reaches present room admits
  refine ⟨behind, rest.trans left, later, ?_⟩
  have next := Reader.next_of_record (r := ⟨d, linkType, w⟩) fetched
  have packet : (Source.legacy ⟨d, linkType, w⟩).next.1.reading =
      .packet (f.packet linkType) := by
    rw [Source.next, Prod.map, next, record]
    rfl
  rw [Source.readings_of_packet packet, Source.next, Prod.map, next]

theorem readings_refused (f : RecordForm d) (ahead : w.ahead = f.octets ++ rest)
    (refused : ¬ d.Admits reach f.size) :
    (Source.legacy ⟨d, linkType, w⟩).readings =
      [.failed (.during "reader next" .tooLarge)] := by
  obtain ⟨size, -, -, present⟩ := record_ahead usable f ahead
  rw [← size] at refused present
  obtain ⟨behind, fetched⟩ := Dialect.fetch_of_not_admits usable reaches present room refused
  have fails : (Source.legacy ⟨d, linkType, w⟩).next.1.reading =
      .failed (.during "reader next" .tooLarge) :=
    Reader.next_of_failed (r := ⟨d, linkType, w⟩) fetched
  rw [Source.readings_of_end (by simp [fails]), fails]

theorem readings_last (f : RecordForm d) (ahead : w.ahead = f.octets) :
    (Source.legacy ⟨d, linkType, w⟩).readings =
      if d.Admits reach f.size then [.packet (f.packet linkType), .finished]
      else [.failed (.during "reader next" .tooLarge)] := by
  have alone : w.ahead = f.octets ++ [] := by rw [ahead, List.append_nil]
  by_cases admits : d.Admits reach f.size
  · obtain ⟨behind, nothing, -, readings⟩ :=
      readings_record usable room reaches f alone admits
    have ends : (Source.legacy ⟨d, linkType, behind⟩).readings = [.finished] :=
      Source.readings_of_nil nothing
    rw [if_pos admits, readings, ends]
  · rw [if_neg admits, readings_refused usable room reaches f alone admits]

theorem readings_records {records : List (RecordForm d)}
    (short : ∀ f ∈ records, f.size < Window.capacity)
    (ahead : w.ahead = records.flatMap RecordForm.octets) :
    (Source.legacy ⟨d, linkType, w⟩).readings =
      (records.map fun f => .packet (f.packet linkType)) ++ [.finished] := by
  induction records generalizing w reach with
  | nil => exact Source.readings_of_nil ahead
  | cons f records ih =>
    rw [List.flatMap_cons] at ahead
    have fits := short f List.mem_cons_self
    have words := usable.words
    have head : d.recordHeader ≤ f.size := Nat.le_add_right _ _
    obtain ⟨behind, left, later, readings⟩ :=
      readings_record usable room reaches f ahead (.inl fits)
    have others := ih (reachBehind_lt room (by omega)) later
      (fun g member => short g (List.mem_cons_of_mem f member)) left
    rw [readings, others]
    rfl

end Ahead

end Legacy

theorem Source.open?_append {file : Bytes} {r : Legacy.Reader}
    (opened : Source.open? file = .ok (.legacy r)) (more : Bytes) :
    r.dialect.Usable ∧ r.window.Reaches (Window.capacity - 24) ∧
      ∃ longer : Window, longer.Reaches (Window.capacity - 24) ∧
        longer.ahead = r.window.ahead ++ more ∧
        Source.open? (file ++ more) = .ok (.legacy ⟨r.dialect, r.linkType, longer⟩) := by
  unfold Source.open? at opened
  split at opened
  · cases opened
  · split at opened
    · split at opened <;> cases opened
    · rename_i other
      split at opened
      · rename_i found openedReader
        cases opened
        obtain ⟨usable, all, window, again⟩ := Legacy.Reader.open_append openedReader more
        refine ⟨usable, ?_, (Window.ofFile (file ++ more)).consume 24,
          (Window.reaches_ofFile _).consume 24, ?_, ?_⟩
        · rw [window]
          exact (Window.reaches_ofFile _).consume 24
        · rw [window]
          exact List.drop_append_of_le_length all
        · have length : (file ++ more).length = file.length + more.length := List.length_append
          unfold Source.open?
          rw [if_neg (by omega), List.take_append_of_le_length (by omega), if_neg other, again]
      · cases opened

namespace Legacy

/-- A file that is read to its end, and a record of its dialect behind it: the longer file gives
the packets that were there, then the packet of the record and the end, if the record fits. -/
theorem readings_append_record {file : Bytes} {r : Reader} {packets : List Packet}
    (opened : Source.open? file = .ok (.legacy r))
    (readings : (Source.legacy r).readings = packets.map .packet ++ [.finished])
    (f : RecordForm r.dialect) :
    ∃ longer, Source.open? (file ++ f.octets) = .ok longer ∧
      longer.readings = packets.map .packet ++
        if f.Fits packets then [.packet (f.packet r.linkType), .finished]
        else [.failed (.during "reader next" .tooLarge)] := by
  have room : Window.capacity - 24 < Window.capacity := by decide
  obtain ⟨usable, reaches, longer, reachesLonger, ahead, again⟩ :=
    Source.open?_append opened f.octets
  obtain ⟨last, left, reachesLast, all⟩ :=
    readings_longer usable room reaches reachesLonger ahead readings
  refine ⟨_, again, ?_⟩
  rw [all, readings_last usable (usable.reachAfter_lt room packets) reachesLast f left]
  rfl

def plainHeader : Bytes :=
  [0xD4, 0xC3, 0xB2, 0xA1, 2, 0, 4, 0, 0, 0, 0, 0, 0, 0, 0, 0, 0xFF, 0xFF, 0, 0, 1, 0, 0, 0]

def plainReader : Reader :=
  ⟨⟨.little, false, 16⟩, LinkType.ethernet, (Window.ofFile plainHeader).consume 24⟩

def plainRecord (size : Nat) (short : size < UInt32.size) : RecordForm plainReader.dialect where
  seconds := 7
  fraction := 8
  onWire := UInt32.ofNatLT size short
  extra := []
  data := List.replicate size 0xAB
  header_length := rfl
  short := by rwa [List.length_replicate]

theorem size_plainRecord (size : Nat) (short : size < UInt32.size) :
    (plainRecord size short).size = 16 + size :=
  congrArg (16 + ·) List.length_replicate

theorem open?_plainHeader : Source.open? plainHeader = .ok (.legacy plainReader) := rfl

theorem readings_plainReader : (Source.legacy plainReader).readings = [.finished] :=
  Source.readings_of_nil rfl

theorem readings_append_record_plain :
    let short := plainRecord 4 (by decide)
    let long := plainRecord 65519 (by decide)
    ∃ w : Window,
      Source.open? (plainHeader ++ short.octets) =
        .ok (.legacy ⟨plainReader.dialect, LinkType.ethernet, w⟩) ∧
      (Source.legacy ⟨plainReader.dialect, LinkType.ethernet, w⟩).readings =
        [.packet (short.packet LinkType.ethernet), .finished] ∧
      ∃ longer, Source.open? (plainHeader ++ short.octets ++ long.octets) = .ok longer ∧
        longer.readings = [.packet (short.packet LinkType.ethernet),
          .packet (long.packet LinkType.ethernet), .finished] := by
  intro short long
  obtain ⟨usable, -, w, reaches, ahead, opened⟩ :=
    Source.open?_append open?_plainHeader short.octets
  have room : Window.capacity - 24 < Window.capacity := by decide
  have readings :
      (Source.legacy ⟨plainReader.dialect, LinkType.ethernet, w⟩).readings = _ :=
    readings_last usable room reaches short ahead
  rw [if_pos (.inl (by rw [size_plainRecord]; decide))] at readings
  refine ⟨w, opened, readings, ?_⟩
  have one : (Source.legacy ⟨plainReader.dialect, LinkType.ethernet, w⟩).readings =
      [short.packet LinkType.ethernet].map .packet ++ [.finished] := readings
  obtain ⟨longer, again, all⟩ := readings_append_record opened one long
  have fits : long.Fits [short.packet LinkType.ethernet] :=
    .inl (by rw [size_plainRecord]; decide)
  rw [if_pos fits] at all
  exact ⟨longer, again, all⟩

theorem readings_plainRecord (size : Nat) (short : size < UInt32.size)
    (large : Window.capacity ≤ 16 + size) :
    ∃ longer, Source.open? (plainHeader ++ (plainRecord size short).octets) = .ok longer ∧
      longer.readings = [.failed (.during "reader next" .tooLarge)] := by
  obtain ⟨usable, -, w, reaches, ahead, opened⟩ :=
    Source.open?_append open?_plainHeader (plainRecord size short).octets
  have room : Window.capacity - 24 < Window.capacity := by decide
  have readings :
      (Source.legacy ⟨plainReader.dialect, plainReader.linkType, w⟩).readings = _ :=
    readings_last usable room reaches _ ahead
  have refused : ¬ plainReader.dialect.Admits (Window.capacity - 24)
      (plainRecord size short).size := by
    rw [size_plainRecord]
    rintro (less | ⟨-, head⟩)
    · omega
    · exact absurd head (by decide)
  rw [if_neg refused] at readings
  exact ⟨_, opened, readings⟩

/-- A file that is read to its end, and a well-formed record behind it that is not read. -/
theorem plainRecord_refused :
    let long := plainRecord 70000 (by decide)
    Source.open? plainHeader = .ok (.legacy plainReader) ∧
      (Source.legacy plainReader).readings = [.finished] ∧
      ¬ ∃ longer, Source.open? (plainHeader ++ long.octets) = .ok longer ∧
        longer.readings = [.packet (long.packet LinkType.ethernet), .finished] := by
  refine ⟨open?_plainHeader, readings_plainReader, ?_⟩
  rintro ⟨longer, opened, claimed⟩
  obtain ⟨refused, again, readings⟩ := readings_plainRecord 70000 (by decide) (by decide)
  obtain rfl := Except.ok.inj (opened.symm.trans again)
  rw [readings] at claimed
  cases claimed

end Legacy

end PacketLayers
