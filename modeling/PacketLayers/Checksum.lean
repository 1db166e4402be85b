import PacketLayers.Bytes

/-!
The Internet checksum: the one's complement of the one's complement sum of 16-bit words.
Octets may arrive in any pieces; an odd octet waits for its partner, and the last one is paired
with zero.
-/
namespace PacketLayers

/-- The sum of the words so far, and the octet still without a partner. -/
structure WordSum where
  total : Nat := 0
  pending : Option UInt8 := none
deriving DecidableEq, Repr

namespace WordSum

def push (s : WordSum) (b : UInt8) : WordSum :=
  match s.pending with
  | none => { s with pending := some b }
  | some high => ⟨s.total + (256 * high.toNat + b.toNat), none⟩

def add (s : WordSum) (bs : Bytes) : WordSum := bs.foldl push s

/-- The sum of all words, the waiting octet counted as the high one of the last word. -/
def padded (s : WordSum) : Nat :=
  match s.pending with
  | none => s.total
  | some high => s.total + 256 * high.toNat

end WordSum

/-- Adds the carries back in until the sum fits 16 bits. -/
def foldCarries (n : Nat) : Nat :=
  if n ≤ 0xFFFF then n else foldCarries (n % 0x10000 + n / 0x10000)
termination_by n
decreasing_by omega

theorem foldCarries_le (n : Nat) : foldCarries n ≤ 0xFFFF := by
  fun_induction foldCarries n with
  | case1 n small => exact small
  | case2 n large ih => exact ih

def WordSum.finish (s : WordSum) : Nat := 0xFFFF - foldCarries s.padded

def checksum (bs : Bytes) : Nat := (WordSum.add {} bs).finish

theorem WordSum.add_append (s : WordSum) (xs ys : Bytes) :
    s.add (xs ++ ys) = (s.add xs).add ys := by
  simp [WordSum.add, List.foldl_append]

end PacketLayers
