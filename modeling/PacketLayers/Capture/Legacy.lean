import PacketLayers.Capture.Packet
import PacketLayers.Capture.Window

namespace PacketLayers.Legacy

structure Dialect where
  order : ByteOrder
  nanoseconds : Bool
  recordHeader : Nat
deriving DecidableEq, Repr

/-- The dialect of a magic number read in little-endian order. -/
def dialect? (magic : Nat) : Option Dialect :=
  if magic = 0xA1B2C3D4 then some ⟨.little, false, 16⟩
  else if magic = 0xA1B23C4D then some ⟨.little, true, 16⟩
  else if magic = 0xA1B2CD34 then some ⟨.little, false, 24⟩
  else if magic = 0xD4C3B2A1 then some ⟨.big, false, 16⟩
  else if magic = 0x4D3CB2A1 then some ⟨.big, true, 16⟩
  else none

structure Reader where
  dialect : Dialect
  linkType : Int
  window : Window

/-- Where the fields of the header end: magic, two version numbers, zone, accuracy, snapshot
length and link type. -/
def fieldEnds : List Nat := [4, 6, 8, 12, 16, 20, 24]

def Reader.open (file : Bytes) : Except ReadError Reader :=
  let window := Window.ofFile file
  match dialect? (Bytes.ofLittle (window.peek 0 4)) with
  | none => .error .unrecognized
  | some dialect =>
    match fieldEnds.find? (window.loaded < ·) with
    | some fieldEnd => .error (.incomplete (fieldEnd - window.loaded))
    | none =>
      .ok ⟨dialect, signed32 (dialect.order.value (window.peek 20 4)), window.consume 24⟩

structure Record where
  seconds : Nat
  fraction : Nat
  data : Bytes

def Dialect.record (d : Dialect) (w : Window) : Except Stop (Extent Record) :=
  if w.loaded < d.recordHeader then .error (.needs (d.recordHeader - w.loaded))
  else
    let captured := d.order.value (w.peek 8 4)
    let size := d.recordHeader + captured
    if w.loaded < size then .error (.needs (size - w.loaded))
    else if nonempty : 0 < size then
      .ok ⟨⟨d.order.value (w.peek 0 4), d.order.value (w.peek 4 4),
        w.peek d.recordHeader captured⟩, size, nonempty⟩
    else .error (.needs 0)

def Dialect.time (d : Dialect) (seconds fraction : Nat) : Float :=
  seconds.toUInt64.toFloat + fraction.toUInt64.toFloat / (if d.nanoseconds then 1e9 else 1e6)

def Reader.next (r : Reader) : Pull × Reader :=
  match r.window.fetch r.dialect.record with
  | (.record record, w) =>
    (⟨[], .packet ⟨some (r.dialect.time record.seconds record.fraction), r.linkType,
      record.data⟩⟩, { r with window := w })
  | (.ended, w) => (⟨[], .finished⟩, { r with window := w })
  | (.failed e, w) =>
    (⟨[.readFailed "pcap" e], .failed (.during "reader next" e)⟩, { r with window := w })

theorem Reader.ahead_lt_of_next {r : Reader} {p : Packet}
    (found : r.next.1.reading = .packet p) :
    r.next.2.window.ahead.length < r.window.ahead.length := by
  unfold Reader.next at found ⊢
  split
  · rename_i w fetched
    exact Window.ahead_lt_of_fetch fetched
  · rename_i fetched
    simp [fetched] at found
  · rename_i fetched
    simp [fetched] at found

end PacketLayers.Legacy
