import PacketLayers.Frame.Format

/-!
A frame read from octets: the header, and all that follows it. `cast?` splits, `parse` also
validates. The payload is the part of the frame that the header claims, clamped.
-/
namespace PacketLayers

structure Frame where
  format : Format
  header : Bytes
  body : Bytes
  header_length : header.length = format.headerLength

namespace Frame

/-- The frame that octets are split into if they are long enough. -/
def split (format : Format) (bs : Bytes) (fits : format.headerLength ≤ bs.length) : Frame :=
  ⟨format, bs.take format.headerLength, bs.drop format.headerLength, List.length_take_of_le fits⟩

def cast? (format : Format) (bs : Bytes) : Option Frame :=
  if fits : format.headerLength ≤ bs.length then some (split format bs fits) else none

def parse (format : Format) (bs : Bytes) : Except ParseError Frame :=
  match cast? format bs with
  | none => .error (.tooSmall format.headerLength bs.length)
  | some frame =>
    if format.valid frame.header frame.body then .ok frame else .error (.invalid format.name)

def size (frame : Frame) : Nat := frame.format.headerLength + frame.body.length

def octets (frame : Frame) : Bytes := frame.header ++ frame.body

def payloadRange (frame : Frame) : Bounds :=
  (frame.format.bounds frame.header frame.size).clamp frame.format.headerLength frame.size

def payload (frame : Frame) : Bytes :=
  frame.body.slice (frame.payloadRange.start - frame.format.headerLength) frame.payloadRange.size

def summary (kind name : String) (size : Nat) (payload : Bounds) : String :=
  kind ++ " \x7b frame: \"" ++ name ++ "\", frame_len: " ++ toString size ++ ", payload: " ++
    toString payload.start ++ ".." ++ toString payload.stop ++ " \x7d"

def describe (frame : Frame) : String :=
  summary "FrameRef" frame.format.name frame.size frame.payloadRange

theorem octets_of_cast {format : Format} {bs : Bytes} {frame : Frame}
    (h : cast? format bs = some frame) : frame.format = format ∧ frame.octets = bs := by
  unfold cast? at h
  split at h
  · cases h
    exact ⟨rfl, List.take_append_drop _ _⟩
  · cases h

/-- Where a frame is asked for, its header may stand for it. -/
instance (frame : Frame) : CoeDep Bytes frame.header Frame := ⟨frame⟩

end Frame

/-- When a frame of one format carries a frame of another. -/
structure Encapsulation where
  parent : Format
  child : Format
  /-- Whether this parent announces the child. It may look at all of the frame. -/
  announces : (parent : Frame) → Bool

end PacketLayers
