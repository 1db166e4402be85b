import PacketLayers.Proofs.Capture.Calls

namespace PacketLayers.Legacy

/-- The header of a classic capture, with one of the two magic numbers that all readers know. -/
structure HeaderForm where
  nanoseconds : Bool
  major : UInt16
  minor : UInt16
  zone : UInt32
  accuracy : UInt32
  snapLength : UInt32
  linkType : Int32

structure Entry where
  seconds : UInt32
  fraction : UInt32
  onWire : UInt32
  data : Bytes
  fits : 16 + data.length < Window.capacity

namespace HeaderForm

variable (h : HeaderForm) (order : ByteOrder)

def magic : Nat := if h.nanoseconds then 0xA1B23C4D else 0xA1B2C3D4

def dialect : Dialect := ⟨order, h.nanoseconds, 16⟩

theorem recordHeader_eq : 16 + ([] : Bytes).length = (h.dialect order).recordHeader := rfl

def octets : Bytes :=
  order.octets 4 h.magic ++ (order.octets 2 h.major.toNat ++ (order.octets 2 h.minor.toNat ++
    (order.octets 4 h.zone.toNat ++ (order.octets 4 h.accuracy.toNat ++
      (order.octets 4 h.snapLength.toNat ++ order.octets 4 h.linkType.toUInt32.toNat)))))

end HeaderForm

namespace Entry

theorem short (e : Entry) : e.data.length < UInt32.size := by
  have fits := e.fits
  change _ < 65536 at fits
  change _ < 0x100000000
  omega

def record (e : Entry) (h : HeaderForm) (order : ByteOrder) : RecordForm (h.dialect order) where
  seconds := e.seconds
  fraction := e.fraction
  onWire := e.onWire
  extra := []
  data := e.data
  header_length := h.recordHeader_eq order
  short := e.short

end Entry

namespace HeaderForm

def file (h : HeaderForm) (order : ByteOrder) (entries : List Entry) : Bytes :=
  h.octets order ++ (entries.map (·.record h order)).flatMap RecordForm.octets

def packet (h : HeaderForm) (e : Entry) : Packet :=
  ⟨some ((h.dialect .little).time e.seconds.toNat e.fraction.toNat), h.linkType.toInt, e.data⟩

end HeaderForm

theorem signed32_toNat (i : Int32) : signed32 i.toUInt32.toNat = i.toInt := by
  have two : i.toInt = i.toBitVec.toInt := rfl
  have nat : i.toUInt32.toNat = i.toBitVec.toNat := rfl
  have bound := i.toBitVec.isLt
  rw [two, nat, BitVec.toInt_eq_toNat_cond, signed32]
  split <;> split <;> omega

namespace HeaderForm

variable (h : HeaderForm) (order : ByteOrder)

theorem length_octets : (h.octets order).length = 24 := by
  simp only [octets, List.length_append, ByteOrder.length_octets]

theorem dialect_magic :
    dialect? (Bytes.ofLittle (order.octets 4 h.magic)) = some (h.dialect order) := by
  unfold magic dialect
  cases order <;> cases h.nanoseconds <;> rfl

theorem magic_ne : order.octets 4 h.magic ≠ Source.sectionMagic := by
  unfold magic
  cases order <;> cases h.nanoseconds <;> decide

theorem slice_magic : (h.octets order).slice 0 4 = order.octets 4 h.magic := by
  rw [octets, ByteOrder.slice_octets]

theorem value_linkType :
    order.value ((h.octets order).slice 20 4) = h.linkType.toUInt32.toNat := by
  have last : (order.octets 4 h.linkType.toUInt32.toNat).slice 0 4 =
      order.octets 4 h.linkType.toUInt32.toNat :=
    List.take_of_length_le (by simp)
  simp [octets, ByteOrder.slice_octets_append, last]

theorem open_octets :
    Reader.open (h.octets order) = .ok ⟨h.dialect order, h.linkType.toInt,
      (Window.ofFile (h.octets order)).consume 24⟩ := by
  have magic : dialect? (Bytes.ofLittle ((Window.ofFile (h.octets order)).peek 0 4)) =
      some (h.dialect order) := by
    rw [← h.dialect_magic order, ← h.slice_magic order]
    rfl
  have complete : fieldEnds.find? ((Window.ofFile (h.octets order)).loaded < ·) = none := by
    have loaded : (Window.ofFile (h.octets order)).loaded = min 24 Window.capacity := by
      rw [← h.length_octets order]
      rfl
    rw [loaded]
    rfl
  have link : (h.dialect order).order.value ((Window.ofFile (h.octets order)).peek 20 4) =
      h.linkType.toUInt32.toNat := h.value_linkType order
  unfold Reader.open
  simp only [magic, complete, link, signed32_toNat]

theorem open?_octets :
    Source.open? (h.octets order) = .ok (.legacy ⟨h.dialect order, h.linkType.toInt,
      (Window.ofFile (h.octets order)).consume 24⟩) := by
  have length := h.length_octets order
  have first : (h.octets order).take 4 ≠ Source.sectionMagic := by
    intro same
    exact h.magic_ne order ((h.slice_magic order).symm.trans same)
  unfold Source.open?
  rw [if_neg (by omega), if_neg first, h.open_octets order]

theorem usable : (h.dialect order).Usable := ⟨Nat.le_refl 16, (by decide : 16 < Window.capacity)⟩

theorem open?_records (records : Bytes) :
    ∃ w : Window, w.Reaches (Window.capacity - 24) ∧ w.ahead = records ∧
      Source.open? (h.octets order ++ records) =
        .ok (.legacy ⟨h.dialect order, h.linkType.toInt, w⟩) := by
  obtain ⟨-, -, w, reaches, ahead, opened⟩ := Source.open?_append (h.open?_octets order) records
  refine ⟨w, reaches, ?_, opened⟩
  have nothing : ((Window.ofFile (h.octets order)).consume 24).ahead = [] :=
    List.drop_eq_nil_of_le (Nat.le_of_eq (h.length_octets order))
  rw [ahead, nothing, List.nil_append]

theorem readings_file (entries : List Entry) :
    ∃ source, Source.open? (h.file order entries) = .ok source ∧
      source.readings = (entries.map h.packet).map .packet ++ [.finished] := by
  obtain ⟨w, reaches, ahead, opened⟩ :=
    h.open?_records order ((entries.map (·.record h order)).flatMap RecordForm.octets)
  refine ⟨_, opened, ?_⟩
  have room : Window.capacity - 24 < Window.capacity := by decide
  have short : ∀ f ∈ entries.map (·.record h order), f.size < Window.capacity := by
    intro f member
    obtain ⟨e, -, rfl⟩ := List.mem_map.mp member
    exact e.fits
  have readings : (Source.legacy ⟨h.dialect order, h.linkType.toInt, w⟩).readings = _ :=
    readings_records (h.usable order) room reaches short ahead
  rw [readings, List.map_map, List.map_map]
  rfl

end HeaderForm

/-- A well-formed file is opened, and its packets are read one by one, with the data and the times
of its entries and the link type of its header; every further call meets the end. -/
theorem reading_of_file (h : HeaderForm) (order : ByteOrder) (entries : List Entry) :
    ∃ source, Source.open? (h.file order entries) = .ok source ∧
      ∀ i, source.reading i = ((entries[i]?).map fun e => .packet (h.packet e)).getD .finished := by
  obtain ⟨source, opened, readings⟩ := h.readings_file order entries
  refine ⟨source, opened, ?_⟩
  intro i
  rw [Source.reading_of_readings_eq readings, List.getElem?_map, Option.map_map]
  rfl

end PacketLayers.Legacy
