import PacketLayers.Frame.Basic

/-!
A frame under edit: one buffer, read anew after every change. Edits write inside the header, the
body or the payload as they stand now, and never change the buffer's length. `Draft.frame` is the
frame that the buffer holds at the moment.
-/
namespace PacketLayers

structure Draft where
  format : Format
  buffer : Bytes
  fits : format.headerLength ≤ buffer.length

namespace Draft

def cast? (format : Format) (bs : Bytes) : Option Draft :=
  if fits : format.headerLength ≤ bs.length then some ⟨format, bs, fits⟩ else none

def header (d : Draft) : Bytes := d.buffer.take d.format.headerLength

def body (d : Draft) : Bytes := d.buffer.drop d.format.headerLength

def parse (format : Format) (bs : Bytes) : Except ParseError Draft :=
  if fits : format.headerLength ≤ bs.length then
    let d : Draft := ⟨format, bs, fits⟩
    if format.valid d.header d.body then .ok d else .error (.invalid format.name)
  else .error (.tooSmall format.headerLength bs.length)

def payloadRange (d : Draft) : Bounds :=
  (d.format.bounds d.header d.buffer.length).clamp d.format.headerLength d.buffer.length

def payload (d : Draft) : Bytes := d.buffer.slice d.payloadRange.start d.payloadRange.size

def describe (d : Draft) : String :=
  Frame.summary "FrameMut" d.format.name d.buffer.length d.payloadRange

def frame (d : Draft) : Frame :=
  ⟨d.format, d.header, d.body, List.length_take_of_le d.fits⟩

inductive Region where
  | header
  | body
  | payload
deriving DecidableEq, Repr

/-- The positions that a region takes in the buffer now. -/
def extent (d : Draft) : Region → Bounds
  | .header => ⟨0, d.format.headerLength⟩
  | .body => ⟨d.format.headerLength, d.buffer.length⟩
  | .payload => d.payloadRange

/-- Writes octets at a position of the buffer; octets that do not fit are not written at all. -/
def write (d : Draft) (start : Nat) (data : Bytes) : Draft :=
  if inside : start + data.length ≤ d.buffer.length then
    ⟨d.format, d.buffer.overwrite start data, by
      rw [Bytes.length_overwrite inside]
      exact d.fits⟩
  else d

/-- Writes octets `start` positions into a region, if all of them lie inside it. -/
def poke? (d : Draft) (region : Region) (start : Nat) (data : Bytes) : Option Draft :=
  let place := d.extent region
  if place.start + start + data.length ≤ place.stop then
    some (d.write (place.start + start) data)
  else none

def set (d : Draft) (field : Field) (data : Bytes) : Draft := d.write field.offset data

end Draft

end PacketLayers
