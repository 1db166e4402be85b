import PacketLayers.Frame.Field

namespace PacketLayers

/-- A half-open range of positions. A claimed one may be inverted. -/
structure Bounds where
  start : Nat
  stop : Nat
deriving DecidableEq, Repr

namespace Bounds

def size (b : Bounds) : Nat := b.stop - b.start

/-- The positions of a claim that lie at or after `low` and before `high`. -/
def clamp (claim : Bounds) (low high : Nat) : Bounds :=
  let stop := min (max claim.stop low) high
  ⟨min (max claim.start low) stop, stop⟩

theorem low_le_clamp_start {claim : Bounds} {low high : Nat} (h : low ≤ high) :
    low ≤ (claim.clamp low high).start := by
  simp only [clamp]
  omega

theorem clamp_start_le_stop (claim : Bounds) (low high : Nat) :
    (claim.clamp low high).start ≤ (claim.clamp low high).stop := by
  simp only [clamp]
  omega

theorem clamp_stop_le (claim : Bounds) (low high : Nat) :
    (claim.clamp low high).stop ≤ high := by
  simp only [clamp]
  omega

end Bounds

/-- Why octets are not a frame of a format. -/
inductive ParseError where
  | tooSmall (needed actual : Nat)
  | invalid (frame : String)
deriving DecidableEq, Repr

def ParseError.message : ParseError → String
  | .tooSmall needed actual => s!"frame too small: need {needed} bytes, got {actual}"
  | .invalid frame => s!"{frame} frame failed validation"

structure Format where
  name : String
  headerLength : Nat
  /-- Whether a header followed by a body is a frame. -/
  valid : (header body : Bytes) → Bool
  /-- Where the header puts the payload in a frame of the given length. -/
  bounds : (header : Bytes) → (frameLength : Nat) → Bounds := fun _ n => ⟨headerLength, n⟩
  readings : (header : Bytes) → List (String × Field.Reading)
  /-- The fields that may be set by name. -/
  settable : List (String × Field) := []

end PacketLayers
