import PacketLayers.Capture.Block
import PacketLayers.Capture.Packet

/-!
Packets from the blocks of a PCAPNG file. Interfaces are counted anew in every section; a packet
takes its link type and its unit of time from its interface, or from the defaults if there is
none.
-/
namespace PacketLayers

structure Interface where
  linkType : Int := LinkType.ethernet
  unitsPerSecond : Nat := 1000000
  /-- The most octets captured of one packet; zero means all of them. -/
  snapLength : Nat := 0
deriving DecidableEq, Repr

/-- The units per second that a resolution stands for, a power of two if the high bit is set and
of ten otherwise, if they fit 64 bits. -/
def unitsPerSecond? (resolution : Nat) : Option Nat :=
  let exponent := resolution % 128
  let units := if 128 ≤ resolution then 1 <<< exponent else Nat.pow 10 exponent
  if units < UInt64.size then some units else none

def unitsToSeconds (high low unitsPerSecond : Nat) : Float :=
  (high * UInt32.size + low).toUInt64.toFloat / unitsPerSecond.toUInt64.toFloat

namespace Sections

structure Reader where
  order : ByteOrder := .little
  interfaces : Array Interface := #[]
  window : Window

/-- Checks that the octets loaded first are a section header. -/
def Reader.open (file : Bytes) : Except ReadError Reader :=
  let window := Window.ofFile file
  match Block.sectionHeader window with
  | .ok _ => .ok { window }
  | .error (.needs missing) => .error (.incomplete missing)
  | .error (.refused e) => .error e

def Reader.interface (r : Reader) (id : Nat) : Interface := r.interfaces.getD id {}

def describe (linkType resolution snapLength : Nat) : Interface × List Event :=
  match unitsPerSecond? resolution with
  | some units => (⟨linkType, units, snapLength⟩, [])
  | none => ({ linkType, snapLength }, [.unsupportedResolution resolution])

def Reader.packet? (r : Reader) : Block → Option Packet
  | .enhanced id high low captured data =>
    let i := r.interface id
    some ⟨some (unitsToSeconds high low i.unitsPerSecond), i.linkType, data.take captured⟩
  | .simple onWire data =>
    let i := r.interface 0
    let captured := if i.snapLength = 0 then onWire else min onWire i.snapLength
    some ⟨none, i.linkType, data.take captured⟩
  | _ => none

/-- The reader's settings after a block, and what is reported. -/
def Reader.apply (r : Reader) : Block → Reader × List Event
  | .section order => ({ r with order, interfaces := #[] }, [])
  | .interface linkType resolution snapLength =>
    let (i, events) := describe linkType resolution snapLength
    ({ r with interfaces := r.interfaces.push i }, events)
  | _ => (r, [])

def Reader.next (r : Reader) : Pull × Reader :=
  match _ : r.window.fetch (Block.next r.order) with
  | (.record block, w) =>
    let behind : Reader := { r with window := w }
    match r.packet? block with
    | some p => (⟨[], .packet p⟩, behind)
    | none =>
      let (settled, events) := behind.apply block
      let (pull, rest) := Reader.next ⟨settled.order, settled.interfaces, w⟩
      (⟨events ++ pull.events, pull.reading⟩, rest)
  | (.ended, w) => (⟨[], .finished⟩, { r with window := w })
  | (.failed e, w) =>
    (⟨[.readFailed "pcapng" e], .failed (.during "reader next" e)⟩, { r with window := w })
termination_by r.window.ahead.length
decreasing_by exact Window.ahead_lt_of_fetch ‹_›

theorem Reader.ahead_lt_of_next {r : Reader} {p : Packet}
    (found : r.next.1.reading = .packet p) :
    r.next.2.window.ahead.length < r.window.ahead.length := by
  fun_induction Reader.next r with
  | case1 r block w fetched => exact Window.ahead_lt_of_fetch fetched
  | case2 r block w fetched _ _ _ _ _ pull rest inner ih =>
    simp only [inner] at ih
    exact Nat.lt_trans (ih found) (Window.ahead_lt_of_fetch fetched)
  | case3 => cases found
  | case4 => cases found

end Sections

end PacketLayers
