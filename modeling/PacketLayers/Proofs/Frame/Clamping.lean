import Mathlib.Algebra.Group.Nat.Defs
import PacketLayers.Proofs.Frame.Edits

/-!
Payloads as a machine computes them, in words of some width. Every operation may fail: a sum that
overflows, a difference below zero, a clamp between inverted limits, a slice that is not inside.
Main statement: none of them fails for a payload, whatever range the header claims, and the payload
is what is claimed of the octets behind the header.
-/
namespace PacketLayers

/-- A clamped claim keeps the positions that are claimed and no others. -/
theorem Bounds.mem_clamp_iff (claim : Bounds) {low high : Nat} (ordered : low ≤ high) (i : Nat) :
    (claim.clamp low high).start ≤ i ∧ i < (claim.clamp low high).stop ↔
      (low ≤ i ∧ i < high) ∧ claim.start ≤ i ∧ i < claim.stop := by
  simp only [clamp]
  omega

namespace Word

variable {w : Nat}

/-- A sum, unless it overflows. -/
def plus? (a b : BitVec w) : Option (BitVec w) :=
  if a.toNat + b.toNat < 2 ^ w then some (a + b) else none

def minus? (a b : BitVec w) : Option (BitVec w) := if b ≤ a then some (a - b) else none

/-- The word between two limits that is nearest to `x`, unless the limits are inverted. -/
def clamp? (x low high : BitVec w) : Option (BitVec w) :=
  if low ≤ high then some (if x < low then low else if high < x then high else x) else none

theorem plus?_of_lt {a b : BitVec w} (room : a.toNat + b.toNat < 2 ^ w) :
    ∃ c, plus? a b = some c ∧ c.toNat = a.toNat + b.toNat := by
  refine ⟨a + b, if_pos room, ?_⟩
  rw [BitVec.toNat_add, Nat.mod_eq_of_lt room]

theorem minus?_of_le {a b : BitVec w} (below : b.toNat ≤ a.toNat) :
    ∃ c, minus? a b = some c ∧ c.toNat = a.toNat - b.toNat :=
  ⟨a - b, if_pos below, BitVec.toNat_sub_of_le below⟩

theorem clamp?_of_le (x : BitVec w) {low high : BitVec w} (ordered : low.toNat ≤ high.toNat) :
    ∃ c, clamp? x low high = some c ∧ c.toNat = min (max x.toNat low.toNat) high.toNat := by
  refine ⟨_, if_pos ordered, ?_⟩
  simp only [BitVec.lt_def]
  split
  · omega
  · split <;> omega

end Word

/-- A half-open range of words. A claimed one may be inverted. -/
structure WordRange (w : Nat) where
  start : BitVec w
  stop : BitVec w

namespace WordRange

variable {w : Nat}

def bounds (r : WordRange w) : Bounds := ⟨r.start.toNat, r.stop.toNat⟩

/-- The end is clamped first, and then the start to what is before it. -/
def clamp? (claim : WordRange w) (low high : BitVec w) : Option (WordRange w) :=
  (Word.clamp? claim.stop low high).bind fun stop =>
    (Word.clamp? claim.start low stop).map fun start => ⟨start, stop⟩

def countedFrom? (r : WordRange w) (origin : BitVec w) : Option (WordRange w) :=
  (Word.minus? r.start origin).bind fun start =>
    (Word.minus? r.stop origin).map fun stop => ⟨start, stop⟩

def slice? (r : WordRange w) (bs : Bytes) : Option Bytes :=
  if r.start ≤ r.stop ∧ r.stop.toNat ≤ bs.length then
    some (bs.slice r.bounds.start r.bounds.size)
  else none

theorem clamp?_of_le (claim : WordRange w) {low high : BitVec w}
    (ordered : low.toNat ≤ high.toNat) :
    ∃ r, claim.clamp? low high = some r ∧
      r.bounds = claim.bounds.clamp low.toNat high.toNat := by
  obtain ⟨stop, clamped, stop_eq⟩ := Word.clamp?_of_le claim.stop ordered
  -- The first result is the limit of the second clamp, and it is no lower than the header's end.
  have next : low.toNat ≤ stop.toNat := by omega
  obtain ⟨start, clampedNext, start_eq⟩ := Word.clamp?_of_le claim.start next
  refine ⟨⟨start, stop⟩, ?_, ?_⟩
  · rw [clamp?, clamped, Option.bind_some, clampedNext, Option.map_some]
  · simp only [bounds, Bounds.clamp, start_eq, stop_eq]

theorem countedFrom?_of_le {r : WordRange w} {origin : BitVec w}
    (behind : origin.toNat ≤ r.bounds.start) (ordered : r.bounds.start ≤ r.bounds.stop) :
    ∃ q, r.countedFrom? origin = some q ∧
      q.bounds = ⟨r.bounds.start - origin.toNat, r.bounds.stop - origin.toNat⟩ := by
  obtain ⟨start, less, start_eq⟩ := Word.minus?_of_le behind
  obtain ⟨stop, lessNext, stop_eq⟩ := Word.minus?_of_le (Nat.le_trans behind ordered)
  refine ⟨⟨start, stop⟩, ?_, ?_⟩
  · rw [countedFrom?, less, Option.bind_some, lessNext, Option.map_some]
  · simp only [bounds, start_eq, stop_eq]

def payloadRange? (claim : WordRange w) (headerLength : BitVec w) (body : Bytes) :
    Option (WordRange w) :=
  (Word.plus? headerLength (BitVec.ofNat w body.length)).bind fun size =>
    claim.clamp? headerLength size

/-- The range of the payload in the body, where it is read and written. -/
def inBody? (claim : WordRange w) (headerLength : BitVec w) (body : Bytes) :
    Option (WordRange w) :=
  (claim.payloadRange? headerLength body).bind fun r => r.countedFrom? headerLength

def payload? (claim : WordRange w) (headerLength : BitVec w) (body : Bytes) : Option Bytes :=
  (claim.inBody? headerLength body).bind fun r => r.slice? body

end WordRange

namespace Draft

theorem payloadRange_inside (d : Draft) :
    d.format.headerLength ≤ d.payloadRange.start ∧ d.payloadRange.start ≤ d.payloadRange.stop ∧
      d.payloadRange.stop ≤ d.buffer.length :=
  ⟨Bounds.low_le_clamp_start d.fits, Bounds.clamp_start_le_stop _ _ _, Bounds.clamp_stop_le _ _ _⟩

theorem length_body (d : Draft) : d.body.length = d.buffer.length - d.format.headerLength :=
  List.length_drop

def headerWord (d : Draft) (w : Nat) : BitVec w := BitVec.ofNat w d.format.headerLength

section Words

variable {w : Nat} {d : Draft} {claim : WordRange w} (width : d.buffer.length < 2 ^ w)
include width

theorem toNat_headerWord : (d.headerWord w).toNat = d.format.headerLength :=
  Nat.mod_eq_of_lt (Nat.lt_of_le_of_lt d.fits width)

variable (claimed : d.format.bounds d.header d.buffer.length = claim.bounds)
include claimed

theorem exists_payloadRange? :
    ∃ r, claim.payloadRange? (d.headerWord w) d.body = some r ∧ r.bounds = d.payloadRange := by
  have fits := d.fits
  have low := toNat_headerWord width
  have body := d.length_body
  have rest : (BitVec.ofNat w d.body.length).toNat = d.body.length := Nat.mod_eq_of_lt (by omega)
  have whole : (d.headerWord w).toNat + (BitVec.ofNat w d.body.length).toNat =
      d.buffer.length := by omega
  have room : (d.headerWord w).toNat + (BitVec.ofNat w d.body.length).toNat < 2 ^ w := by
    rw [whole]
    exact width
  obtain ⟨size, added, size_eq⟩ := Word.plus?_of_lt room
  have high := size_eq.trans whole
  have ordered : (d.headerWord w).toNat ≤ size.toNat := by omega
  obtain ⟨r, clamped, bounds⟩ := claim.clamp?_of_le ordered
  refine ⟨r, ?_, ?_⟩
  · rw [WordRange.payloadRange?, added, Option.bind_some, clamped]
  · rw [bounds, low, high, ← claimed, payloadRange]

theorem exists_inBody? :
    ∃ r, claim.inBody? (d.headerWord w) d.body = some r ∧
      r.bounds = ⟨d.payloadRange.start - d.format.headerLength,
        d.payloadRange.stop - d.format.headerLength⟩ := by
  have low := toNat_headerWord width
  obtain ⟨behind, ordered, -⟩ := d.payloadRange_inside
  obtain ⟨q, clamped, range⟩ := exists_payloadRange? width claimed
  rw [← low, ← range] at behind
  rw [← range] at ordered
  obtain ⟨r, counted, bounds⟩ := WordRange.countedFrom?_of_le behind ordered
  refine ⟨r, ?_, ?_⟩
  · rw [WordRange.inBody?, clamped, Option.bind_some, counted]
  · rw [bounds, low, range]

theorem payload?_eq : claim.payload? (d.headerWord w) d.body = some d.payload := by
  have body := d.length_body
  obtain ⟨behind, ordered, inside⟩ := d.payloadRange_inside
  obtain ⟨r, counted, bounds⟩ := exists_inBody? width claimed
  have start : r.start.toNat = d.payloadRange.start - d.format.headerLength :=
    congrArg Bounds.start bounds
  have stop : r.stop.toNat = d.payloadRange.stop - d.format.headerLength :=
    congrArg Bounds.stop bounds
  have inBody : r.start ≤ r.stop ∧ r.stop.toNat ≤ d.body.length := by
    rw [BitVec.le_def]
    omega
  have size : r.bounds.size = d.payloadRange.size := by
    simp only [bounds, Bounds.size]
    omega
  rw [WordRange.payload?, counted, Option.bind_some, WordRange.slice?, if_pos inBody, size,
    ← payload_frame, Frame.payload, payloadRange_frame, bounds]
  rfl

/-- Whatever range of words the header of a frame claims, its payload's range is behind the header
and inside the frame and has the positions there that are claimed. Computed in words, the range, its
place in the body and the payload come without failure; and a view that only reads has the same. -/
theorem payload_of_claim :
    (d.format.headerLength ≤ d.payloadRange.start ∧
      d.payloadRange.start ≤ d.payloadRange.stop ∧ d.payloadRange.stop ≤ d.buffer.length) ∧
    (∀ i, d.payloadRange.start ≤ i ∧ i < d.payloadRange.stop ↔
      (d.format.headerLength ≤ i ∧ i < d.buffer.length) ∧
        claim.start.toNat ≤ i ∧ i < claim.stop.toNat) ∧
    (∃ r, claim.payloadRange? (d.headerWord w) d.body = some r ∧ r.bounds = d.payloadRange) ∧
    (∃ r, claim.inBody? (d.headerWord w) d.body = some r ∧
      r.bounds = ⟨d.payloadRange.start - d.format.headerLength,
        d.payloadRange.stop - d.format.headerLength⟩) ∧
    claim.payload? (d.headerWord w) d.body = some d.payload ∧
    d.frame.payloadRange = d.payloadRange ∧ d.frame.payload = d.payload := by
  refine ⟨d.payloadRange_inside, fun i => ?_, exists_payloadRange? width claimed,
    exists_inBody? width claimed, payload?_eq width claimed, d.payloadRange_frame,
    d.payload_frame⟩
  rw [payloadRange, Bounds.mem_clamp_iff _ d.fits, claimed]
  rfl

end Words

def greedy : Draft :=
  ⟨Sample.Span.format, [1, 0, 0, 0, 0xFF, 0xFF, 7, 8], by decide⟩

def inverted : Draft :=
  ⟨Sample.Span.format, [1, 0, 0, 8, 0, 7, 7, 8, 9], by decide⟩

theorem payload_of_claim_spans :
    let all : WordRange 16 := ⟨0, 0xFFFF⟩
    let none : WordRange 16 := ⟨8, 7⟩
    (greedy.format.bounds greedy.header greedy.buffer.length = all.bounds ∧
      greedy.buffer.length < 2 ^ 16 ∧
      all.payload? (greedy.headerWord 16) greedy.body = some [7, 8]) ∧
    inverted.format.bounds inverted.header inverted.buffer.length = none.bounds ∧
      inverted.buffer.length < 2 ^ 16 ∧
      none.payload? (inverted.headerWord 16) inverted.body = some [] := by
  intro all none
  have claimed : greedy.format.bounds greedy.header greedy.buffer.length = all.bounds := by decide
  have claimedNone :
      inverted.format.bounds inverted.header inverted.buffer.length = none.bounds := by
    decide
  have width : greedy.buffer.length < 2 ^ 16 := by decide
  have widthNone : inverted.buffer.length < 2 ^ 16 := by decide
  obtain ⟨-, -, -, -, taken, -⟩ := payload_of_claim width claimed
  obtain ⟨-, -, -, -, takenNone, -⟩ := payload_of_claim widthNone claimedNone
  exact ⟨⟨claimed, width, taken⟩, claimedNone, widthNone, takenNone⟩

end Draft

end PacketLayers
