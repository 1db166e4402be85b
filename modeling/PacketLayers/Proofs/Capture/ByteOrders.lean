import PacketLayers.Proofs.Capture.ClassicFile

namespace PacketLayers.Legacy

variable {d : Dialect}

def RecordForm.turned (order : ByteOrder) (f : RecordForm d) : RecordForm { d with order } where
  seconds := f.seconds
  fraction := f.fraction
  onWire := f.onWire
  extra := f.extra
  data := f.data
  header_length := f.header_length
  short := f.short

theorem Dialect.Usable.turned (usable : d.Usable) (order : ByteOrder) :
    Dialect.Usable { d with order } := ⟨usable.words, usable.fits⟩

theorem readings_turned (usable : d.Usable) (order : ByteOrder) {linkType : Int} {w v : Window}
    {reach : Nat} (room : reach < Window.capacity) (reaches : w.Reaches reach)
    (reachesTurned : v.Reaches reach) {records : List (RecordForm d)}
    (ahead : w.ahead = records.flatMap RecordForm.octets)
    (aheadTurned : v.ahead = (records.map (·.turned order)).flatMap RecordForm.octets) :
    (Source.legacy ⟨{ d with order }, linkType, v⟩).readings =
      (Source.legacy ⟨d, linkType, w⟩).readings := by
  induction records generalizing w v reach with
  | nil =>
    have ends : (Source.legacy ⟨d, linkType, w⟩).readings = [.finished] :=
      Source.readings_of_nil ahead
    rw [ends]
    exact Source.readings_of_nil aheadTurned
  | cons f records ih =>
    rw [List.flatMap_cons] at ahead
    rw [List.map_cons, List.flatMap_cons] at aheadTurned
    by_cases admits : d.Admits reach f.size
    · obtain ⟨rest, left, later, step⟩ :=
        @readings_record d linkType w reach _ usable room reaches f ahead admits
      obtain ⟨restTurned, leftTurned, laterTurned, stepTurned⟩ :=
        @readings_record _ linkType v reach _ (usable.turned order) room reachesTurned
          (f.turned order) aheadTurned admits
      have positive : 0 < f.size := by
        have words := usable.words
        exact Nat.lt_of_lt_of_le (by omega) (Nat.le_add_right d.recordHeader f.data.length)
      have others := ih (reachBehind_lt room positive) later laterTurned left leftTurned
      rw [step, stepTurned]
      exact congrArg _ others
    · rw [readings_refused usable room reaches f ahead admits]
      exact readings_refused (usable.turned order) room reachesTurned (f.turned order) aheadTurned
        admits

def HeaderForm.capture (h : HeaderForm) (order : ByteOrder)
    (records : List (RecordForm (h.dialect .little))) : Bytes :=
  h.octets order ++ (records.map (·.turned order)).flatMap RecordForm.octets

/-- The files that encode a header and records in either byte order are both opened, and every call
gives the same for both: one packet after the other and then the end, if all records are shorter
than the window. -/
theorem reading_of_orders (h : HeaderForm) (records : List (RecordForm (h.dialect .little))) :
    ∃ little big, Source.open? (h.capture .little records) = .ok little ∧
      Source.open? (h.capture .big records) = .ok big ∧
      (∀ i, big.reading i = little.reading i) ∧
      ((∀ f ∈ records, f.size < Window.capacity) → ∀ i, little.reading i =
        (records[i]?.map fun f => .packet (f.packet h.linkType.toInt)).getD .finished) := by
  have room : Window.capacity - 24 < Window.capacity := by decide
  have usable := h.usable .little
  obtain ⟨w, reaches, ahead, opened⟩ := h.open?_records .little
    ((records.map (·.turned .little)).flatMap RecordForm.octets)
  obtain ⟨v, reachesBig, aheadBig, openedBig⟩ := h.open?_records .big
    ((records.map (·.turned .big)).flatMap RecordForm.octets)
  have same : records.map (·.turned .little) = records := List.map_id records
  refine ⟨_, _, opened, openedBig, ?_, ?_⟩
  · apply Source.reading_congr
    rw [same] at ahead
    exact readings_turned usable .big room reaches reachesBig ahead aheadBig
  · intro short i
    rw [same] at ahead
    have readings : (Source.legacy ⟨h.dialect .little, h.linkType.toInt, w⟩).readings =
        (records.map (·.packet h.linkType.toInt)).map .packet ++ [.finished] := by
      rw [readings_records usable room reaches short ahead, List.map_map]
      rfl
    rw [Source.reading_of_readings_eq readings, List.getElem?_map, Option.map_map]
    rfl

def rawHeader : HeaderForm := ⟨true, 2, 4, 0, 0, 0x40000, 101⟩

def rawData : Bytes := [0x45, 0, 0, 20]

theorem rawData_short : rawData.length < UInt32.size := by decide

def rawRecord : RecordForm (rawHeader.dialect .little) where
  seconds := 1
  fraction := 999999999
  onWire := 60
  extra := []
  data := rawData
  header_length := rawHeader.recordHeader_eq .little
  short := rawData_short

theorem reading_of_orders_rawRecord :
    (∀ f ∈ [rawRecord], f.size < Window.capacity) ∧
      ∃ little big, Source.open? (rawHeader.capture .little [rawRecord]) = .ok little ∧
        Source.open? (rawHeader.capture .big [rawRecord]) = .ok big ∧
        little.reading 0 = .packet (rawRecord.packet 101) ∧
        big.reading 0 = .packet (rawRecord.packet 101) ∧ big.reading 1 = .finished := by
  have short : ∀ f ∈ [rawRecord], f.size < Window.capacity := by decide
  obtain ⟨little, big, opened, openedBig, same, readings⟩ :=
    reading_of_orders rawHeader [rawRecord]
  have first : little.reading 0 = .packet (rawRecord.packet 101) := readings short 0
  have last : little.reading 1 = .finished := readings short 1
  exact ⟨short, little, big, opened, openedBig, first, (same 0).trans first, (same 1).trans last⟩

end PacketLayers.Legacy
